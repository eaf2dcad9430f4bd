import Reiny.Lib.Machine
import Reiny.Lib.Words

/-! Frames with their length in front, put together from pieces of a stream. -/

namespace Reiny.Lib.Prefixed

open Words List

variable {S A E : Type}

structure Format (S A E : Type) where
  width : ℕ
  size : Bytes → Except E ℕ
  accept : S → Bytes → Except E (A × S)
  positive : 0 < width
  sized : ∀ {header n}, size header = .ok n → 0 < n

structure Reader (S : Type) where
  state : S
  header : Bytes
  length : ℕ
  body : Bytes

inductive Verdict (A E : Type)
  | more
  | accepted (a : A)
  | refused (e : E)

def Reader.fresh (s : S) : Reader S := ⟨s, [], 0, []⟩

variable (F : Format S A E)

def room (r : Reader S) : ℕ :=
  if r.header.length < F.width then F.width - r.header.length else r.length - r.body.length

def absorb (r : Reader S) (bytes : Bytes) : Verdict A E × Reader S :=
  if r.header.length < F.width then
    let header := r.header ++ bytes
    if header.length = F.width then
      match F.size header with
      | .error e => (.refused e, { r with header })
      | .ok length => (.more, { r with header, length })
    else (.more, { r with header })
  else
    let body := r.body ++ bytes
    if body.length = r.length then
      match F.accept r.state body with
      | .error e => (.refused e, { r with body })
      | .ok (a, state) => (.accepted a, .fresh state)
    else (.more, { r with body })

def step (r : Reader S) (bytes : Bytes) : Option (Verdict A E × Reader S) :=
  if 0 < bytes.length ∧ bytes.length ≤ room F r then some (absorb F r bytes) else none

def cut (s : S) (stream : Bytes) : List A :=
  if _ : stream.length < F.width then []
  else match F.size (stream.take F.width) with
    | .error _ => []
    | .ok n =>
      let rest := stream.drop F.width
      if rest.length < n then []
      else match F.accept s (rest.take n) with
        | .error _ => []
        | .ok (a, s) => a :: cut s (rest.drop n)
termination_by stream.length
decreasing_by
  have := F.positive
  simp only [List.length_drop]
  omega

def accepted (verdicts : List (Verdict A E)) : List A :=
  verdicts.filterMap fun verdict =>
    match verdict with
    | .accepted a => some a
    | _ => none

variable {F} {r r' : Reader S} {bytes future : Bytes} {s : S}

inductive Live (F : Format S A E) (r : Reader S) : Prop
  | header (h : r.header.length < F.width) (hbody : r.body = []) (hlength : r.length = 0)
  | body (h : r.header.length = F.width) (hsize : F.size r.header = .ok r.length) (hbody : r.body.length < r.length)

lemma live_fresh : Live F (.fresh s) := .header F.positive rfl rfl

lemma cut_header {header : Bytes} (h : header.length = F.width) :
    cut F s (header ++ future) = match F.size header with
      | .error _ => []
      | .ok n =>
        if future.length < n then []
        else match F.accept s (future.take n) with
          | .error _ => []
          | .ok (a, s) => a :: cut F s (future.drop n) := by
  rw [cut, dif_neg (by rw [length_append]; omega), take_left' h, drop_left' h]

lemma Live.cut_nil (h : Live F r) : cut F r.state (r.header ++ r.body) = [] := by
  cases h with
  | header h hb =>
    rw [hb, append_nil, cut, dif_pos h]
  | body h hsz hb =>
    rw [cut_header h, hsz]
    exact if_pos hb

inductive Absorbed (F : Format S A E) (r : Reader S) (bytes : Bytes) : Verdict A E → Reader S → Prop
  | more {r' : Reader S} (hlive : Live F r') (hstate : r'.state = r.state)
      (hbytes : r'.header ++ r'.body = r.header ++ r.body ++ bytes) : Absorbed F r bytes .more r'
  | accepted {a : A} {s : S} (hcut : ∀ future, cut F r.state (r.header ++ r.body ++ bytes ++ future) =
    a :: cut F s future) :
      Absorbed F r bytes (.accepted a) (.fresh s)
  | refused {e : E} {r' : Reader S} (hroom : room F r' = 0)
      (hcut : ∀ future, cut F r.state (r.header ++ r.body ++ bytes ++ future) = []) :
      Absorbed F r bytes (.refused e) r'

lemma absorb_header (h : r.header.length < F.width) (hb : r.body = []) (hl : r.length = 0)
    (hr : bytes.length ≤ room F r) : Absorbed F r bytes (absorb F r bytes).1 (absorb F r bytes).2 := by
  have hbs : r.header ++ r.body ++ bytes = r.header ++ bytes := by rw [hb, append_nil]
  rw [room, if_pos h] at hr
  unfold absorb
  rw [if_pos h]
  dsimp only
  split_ifs with hw
  · cases hsz : F.size (r.header ++ bytes) with
    | error e =>
      refine .refused ?_ ?_
      · rw [room, if_neg (by rw [hw]; exact lt_irrefl _), hl, Nat.zero_sub]
      · intro future
        rw [hbs, cut_header hw, hsz]
    | ok length =>
      refine .more (.body hw hsz ?_) rfl ?_
      · rw [hb]
        exact F.sized hsz
      · rw [hbs, hb, append_nil]
  · refine .more (.header ?_ hb hl) rfl ?_
    · rw [length_append] at hw ⊢
      omega
    · rw [hbs, hb, append_nil]

lemma absorb_body (h : r.header.length = F.width) (hsz : F.size r.header = .ok r.length)
    (hb : r.body.length < r.length) (hr : bytes.length ≤ room F r) :
    Absorbed F r bytes (absorb F r bytes).1 (absorb F r bytes).2 := by
  have hf : ¬ r.header.length < F.width := by omega
  rw [room, if_neg hf] at hr
  have hc (hw : (r.body ++ bytes).length = r.length) (future : Bytes) :
      cut F r.state (r.header ++ r.body ++ bytes ++ future) = match F.accept r.state (r.body ++ bytes) with
        | .error _ => []
        | .ok (a, s) => a :: cut F s future := by
    rw [append_assoc r.header, append_assoc, cut_header h, hsz]
    simp only
    rw [if_neg (by rw [length_append, hw]; omega), take_left' hw, drop_left' hw]
  unfold absorb
  rw [if_neg hf]
  dsimp only
  split_ifs with hw
  · cases ha : F.accept r.state (r.body ++ bytes) with
    | error e =>
      refine .refused ?_ ?_
      · rw [room, if_neg hf, hw, Nat.sub_self]
      · intro future
        rw [hc hw, ha]
    | ok result =>
      refine .accepted ?_
      intro future
      rw [hc hw, ha]
  · refine .more (.body h hsz ?_) rfl (append_assoc _ _ _).symm
    dsimp only
    rw [length_append] at hw ⊢
    omega

lemma Live.absorbed (h : Live F r) (hr : bytes.length ≤ room F r) :
    Absorbed F r bytes (absorb F r bytes).1 (absorb F r bytes).2 := by
  cases h with
  | header h hb hl => exact absorb_header h hb hl hr
  | body h hsz hb => exact absorb_body h hsz hb hr

theorem run_cut {pieces : List Bytes} {verdicts : List (Verdict A E)} (h : Live F r)
    (hrun : Machine.run (step F) r pieces = some (verdicts, r')) :
    accepted verdicts = cut F r.state (r.header ++ r.body ++ pieces.flatten) ∧
      ∀ before e after, verdicts = before ++ .refused e :: after → after = [] := by
  induction pieces generalizing r verdicts with
  | nil =>
    cases hrun
    rw [flatten_nil, append_nil, h.cut_nil]
    exact ⟨rfl, fun before e after heq => absurd heq (by simp)⟩
  | cons bytes pieces ih =>
    obtain ⟨verdict, next, rest, hs, hre, rfl⟩ := Machine.run_cons.mp hrun
    unfold step at hs
    split_ifs at hs with hle
    have ha := h.absorbed hle.2
    rw [Option.some.inj hs] at ha
    rw [flatten_cons, ← append_assoc]
    cases ha with
    | more hli hst hbs =>
      obtain ⟨hc, hl⟩ := ih hli hre
      refine ⟨?_, ?_⟩
      · rw [← hbs, ← hst]
        exact hc
      · intro before e after heq
        cases before with
        | nil => cases heq
        | cons first before => exact hl before e after (List.cons.inj heq).2
    | accepted hacc =>
      obtain ⟨hc, hl⟩ := ih live_fresh hre
      refine ⟨?_, ?_⟩
      · rw [hacc]
        exact congrArg _ hc
      · intro before e after heq
        cases before with
        | nil => cases heq
        | cons first before => exact hl before e after (List.cons.inj heq).2
    | refused hr href =>
      have he : pieces = [] ∧ rest = [] := by
        cases pieces with
        | nil =>
          cases hre
          exact ⟨rfl, rfl⟩
        | cons piece pieces =>
          obtain ⟨_, _, _, hs, -⟩ := Machine.run_cons.mp hre
          change room F next = 0 at hr
          rw [step, if_neg (by omega)] at hs
          cases hs
      obtain ⟨rfl, rfl⟩ := he
      refine ⟨(href _).symm, ?_⟩
      intro before e after heq
      cases before with
      | nil => exact (List.cons.inj heq).2.symm
      | cons first before => exact absurd (List.cons.inj heq).2 (by simp)

inductive Written (F : Format S A E) (s : S) : List A → Bytes → S → Prop
  | nil : Written F s [] [] s
  | snoc {items : List A} {bytes header body : Bytes} {s' s'' : S} {a : A} (h : Written F s items bytes s')
      (hheader : header.length = F.width) (hsize : F.size header = .ok body.length)
      (haccept : F.accept s' body = .ok (a, s'')) : Written F s (items ++ [a]) (bytes ++ (header ++ body)) s''

variable {items : List A} {s' : S}

lemma Written.cut_append (h : Written F s items bytes s') (future : Bytes) :
    cut F s (bytes ++ future) = items ++ cut F s' future := by
  induction h generalizing future with
  | nil => rfl
  | snoc h hw hsz ha ih =>
    rw [append_assoc, ih, append_assoc, cut_header hw, hsz, append_assoc]
    simp only [length_append, take_left, drop_left, ha, Nat.not_lt.mpr (Nat.le_add_right _ _), if_false]
    rfl

lemma Written.cut (h : Written F s items bytes s') : Prefixed.cut F s bytes = items := by
  have hc := h.cut_append []
  have hn : Prefixed.cut F s' [] = [] := (live_fresh (F := F) (s := s')).cut_nil
  rwa [append_nil, hn, append_nil] at hc

lemma cut_mono (more : Bytes) : cut F s bytes <+: cut F s (bytes ++ more) := by
  fun_induction cut F s bytes with
  | case1 | case2 | case3 | case4 => exact nil_prefix
  | case5 s bytes hw n hsz rest hl a next ha ih =>
    have hle : n ≤ rest.length := Nat.not_lt.mp hl
    rw [← take_append_drop F.width bytes, append_assoc, cut_header (length_take_of_le (Nat.not_lt.mp hw)), hsz]
    simp only
    rw [if_neg (by rw [length_append]; exact Nat.not_lt.mpr (hle.trans (Nat.le_add_right _ _))),
      take_append_of_le_length hle, drop_append_of_le_length hle, ha]
    exact (prefix_cons_inj a).mpr ih

end Reiny.Lib.Prefixed
