import Reiny.Lib.Delimited

/-! A queue of words, each ended by its only delimiter, that is emptied byte by byte or word by word. -/

namespace Reiny.Lib.Outbox

open List

variable {α : Type}

def Ended (d : α) (w : List α) : Prop := ∃ body, d ∉ body ∧ w = body ++ [d]

/-- What is seen of a queue. `torn` says that the rest of a cut word was thrown away. -/
structure Ledger (α : Type) where
  words : List (List α)
  taken : List α
  dropped : List (List α)
  queue : List α
  cut : Bool
  torn : Bool

namespace Ledger

def empty : Ledger α := ⟨[], [], [], [], false, false⟩

def put (s : Ledger α) (w : List α) : Ledger α := { s with words := s.words ++ [w], queue := s.queue ++ w }

def take [DecidableEq α] (d : α) (s : Ledger α) (n : ℕ) : Ledger α :=
  { s with
    taken := s.taken ++ s.queue.take n
    queue := s.queue.drop n
    cut := if s.queue.take n = [] then s.cut else (s.queue.take n).getLast? ≠ some d }

def shift (s : Ledger α) (n : ℕ) : Ledger α :=
  { s with taken := s.taken ++ s.queue.take n, queue := s.queue.drop n, cut := false }

def discard (s : Ledger α) (n : ℕ) : Ledger α :=
  { s with
    dropped := s.dropped ++ [s.queue.take n]
    queue := s.queue.drop n
    torn := s.torn || s.cut
    cut := false }

end Ledger

structure Account (α : Type) where
  gone : List (List α × List α)
  before : List α
  ahead : List (List α)

def whole (p : List α × List α) : List α := p.1 ++ p.2

structure Balanced (d : α) (a : Account α) (s : Ledger α) : Prop where
  words : s.words = a.gone.map whole ++ a.ahead.modifyHead (a.before ++ ·)
  taken : s.taken = a.gone.flatMap Prod.fst ++ a.before
  dropped : s.dropped = (a.gone.map Prod.snd).filter (!·.isEmpty)
  queue : s.queue = a.ahead.flatten
  cut : s.cut = !a.before.isEmpty
  torn : s.torn = false → ∀ p ∈ a.gone, p.1 = [] ∨ p.2 = []
  ended : ∀ w ∈ a.ahead, Ended d w
  idle : a.ahead = [] → a.before = []

variable {d : α} {a : Account α} {s : Ledger α} {w : List α}

lemma Ended.ne_nil (h : Ended d w) : w ≠ [] := by
  obtain ⟨body, -, rfl⟩ := h
  simp

lemma Ended.cons {b : α} (h : Ended d (b :: w)) : (b = d ∧ w = []) ∨ (b ≠ d ∧ Ended d w) := by
  obtain ⟨body, hb, hw⟩ := h
  cases body with
  | nil =>
    obtain ⟨rfl, rfl⟩ := List.cons.inj hw
    exact .inl ⟨rfl, rfl⟩
  | cons c body =>
    obtain ⟨rfl, rfl⟩ := List.cons.inj hw
    rw [mem_cons, not_or] at hb
    exact .inr ⟨Ne.symm hb.1, body, hb.2, rfl⟩

lemma balanced_empty : Balanced d ⟨[], [], []⟩ (Ledger.empty : Ledger α) where
  words := rfl
  taken := rfl
  dropped := rfl
  queue := rfl
  cut := rfl
  torn := fun _ _ h => absurd h List.not_mem_nil
  ended := fun _ h => absurd h List.not_mem_nil
  idle := fun _ => rfl

lemma Balanced.put (h : Balanced d a s) (hw : Ended d w) :
    Balanced d { a with ahead := a.ahead ++ [w] } (s.put w) where
  words := by
    change s.words ++ [w] = _
    rw [h.words, append_assoc]
    congr 1
    cases ha : a.ahead with
    | nil => simp [h.idle ha]
    | cons v ahead => rfl
  taken := h.taken
  dropped := h.dropped
  queue := by
    change s.queue ++ w = _
    rw [h.queue, flatten_append, flatten_singleton]
  cut := h.cut
  torn := h.torn
  ended := by
    intro v hv
    rcases mem_append.mp hv with hv | hv
    · exact h.ended v hv
    · rw [mem_singleton.mp hv]
      exact hw
  idle := fun hn => absurd (append_eq_nil_iff.mp hn).2 (by simp)

variable {ahead : List (List α)}

section

variable (h : Balanced d a s) (ha : a.ahead = w :: ahead)

include h ha

lemma Balanced.leave {p : List α × List α} (hp : whole p = a.before ++ w) {s' : Ledger α} (hw : s'.words = s.words)
    (ht : s'.taken = a.gone.flatMap Prod.fst ++ p.1) (hd : s'.dropped = s.dropped ++ [p.2].filter (!·.isEmpty))
    (hqu : s'.queue = ahead.flatten) (hc : s'.cut = false)
    (hto : s'.torn = false → s.torn = false ∧ (p.1 = [] ∨ p.2 = [])) :
    Balanced d ⟨a.gone ++ [p], [], ahead⟩ s' where
  words := by
    rw [hw, h.words, ha, map_append, map_singleton, hp, append_assoc]
    cases ahead <;> rfl
  taken := by
    rw [ht, flatMap_append, flatMap_singleton, append_nil]
  dropped := by
    rw [hd, h.dropped, map_append, filter_append, map_singleton]
  queue := hqu
  cut := hc
  torn := by
    intro hf q hq
    obtain ⟨ho, hpa⟩ := hto hf
    rcases mem_append.mp hq with hq | hq
    · exact h.torn ho q hq
    · rw [mem_singleton.mp hq]
      exact hpa
  ended := fun v hv => h.ended v (ha ▸ mem_cons_of_mem _ hv)
  idle := fun _ => rfl

lemma Balanced.first : s.queue.take w.length = w ∧ s.queue.drop w.length = ahead.flatten := by
  rw [h.queue, ha, flatten_cons]
  exact ⟨take_left, drop_left⟩

lemma Balanced.shift : Balanced d ⟨a.gone ++ [(a.before ++ w, [])], [], ahead⟩ (s.shift w.length) := by
  obtain ⟨ht, hd⟩ := h.first ha
  refine h.leave ha (append_nil _) rfl ?_ (append_nil _).symm hd rfl fun hf => ⟨hf, .inr rfl⟩
  change s.taken ++ s.queue.take w.length = _
  rw [ht, h.taken, append_assoc]

lemma Balanced.discard : Balanced d ⟨a.gone ++ [(a.before, w)], [], ahead⟩ (s.discard w.length) := by
  obtain ⟨ht, hd⟩ := h.first ha
  have hne : w ≠ [] := (h.ended w (ha ▸ mem_cons_self)).ne_nil
  refine h.leave ha rfl rfl h.taken ?_ hd rfl fun hf => ?_
  · change s.dropped ++ [s.queue.take w.length] = _
    rw [ht, filter_cons_of_pos (by simpa using hne), filter_nil]
  · change (s.torn || s.cut) = false at hf
    rw [Bool.or_eq_false_iff, h.cut] at hf
    exact ⟨hf.1, .inl (by simpa using hf.2)⟩

end

section Taking

variable [DecidableEq α]

variable {b : α} {q : List α}

lemma take_succ (hq : s.queue = b :: q) (n : ℕ) : s.take d (n + 1) = (s.take d 1).take d n := by
  cases n with
  | zero => simp [Ledger.take, hq]
  | succ n =>
    cases q with
    | nil | cons => simp [Ledger.take, hq]

lemma Balanced.take_one (h : Balanced d a s) (hq : s.queue = b :: q) : ∃ a', Balanced d a' (s.take d 1) := by
  obtain ⟨gone, before, ahead⟩ := a
  cases ahead with
  | nil =>
    have hn : s.queue = [] := h.queue
    rw [hq] at hn
    cases hn
  | cons w ahead =>
    have he := h.ended w mem_cons_self
    have hqu : s.queue = w ++ ahead.flatten := h.queue
    cases w with
    | nil => exact absurd rfl he.ne_nil
    | cons c w =>
      rw [hq] at hqu
      obtain ⟨rfl, rfl⟩ := List.cons.inj hqu
      rcases he.cons with ⟨rfl, rfl⟩ | ⟨hne, hr⟩
      · have hs : s.take b 1 = s.shift 1 := by simp [Ledger.take, Ledger.shift, hq]
        rw [hs]
        exact ⟨_, h.shift rfl⟩
      · refine ⟨⟨gone, before ++ [b], w :: ahead⟩, ?_, ?_, h.dropped, ?_, ?_, h.torn, ?_, nofun⟩
        · simpa [Ledger.take] using h.words
        · change s.taken ++ s.queue.take 1 = gone.flatMap Prod.fst ++ (before ++ [b])
          rw [h.taken, hq, append_assoc]
          rfl
        · simp [Ledger.take, hq]
        · simp [Ledger.take, hq, hne]
        · intro v hv
          rcases mem_cons.mp hv with rfl | hv
          · exact hr
          · exact h.ended v (mem_cons_of_mem _ hv)

lemma Balanced.take (h : Balanced d a s) (n : ℕ) : ∃ a', Balanced d a' (s.take d n) := by
  induction n generalizing a s with
  | zero => exact ⟨a, by simpa [Ledger.take] using h⟩
  | succ n ih =>
    cases hq : s.queue with
    | nil =>
      have hs : s.take d (n + 1) = s := by
        obtain ⟨words, taken, dropped, queue, cut, torn⟩ := s
        cases hq
        simp [Ledger.take]
      exact ⟨a, hs.symm ▸ h⟩
    | cons b q =>
      obtain ⟨a', h'⟩ := h.take_one hq
      rw [take_succ hq]
      exact ih h'

lemma Balanced.delimiter (h : Balanced d a s) {i : ℕ} (hi : s.queue.findIdx? (· == d) = some i) :
    ∃ w ahead, a.ahead = w :: ahead ∧ w.length = i + 1 := by
  cases ha : a.ahead with
  | nil =>
    rw [h.queue, ha] at hi
    cases hi
  | cons w ahead =>
    obtain ⟨body, hb, rfl⟩ := h.ended w (ha ▸ mem_cons_self)
    refine ⟨_, ahead, rfl, ?_⟩
    rw [h.queue, ha, flatten_cons, append_assoc, singleton_append, Delimited.find_chunk hb] at hi
    cases hi
    rw [length_append, length_singleton]

lemma Balanced.silent (h : Balanced d a s) (hi : s.queue.findIdx? (· == d) = none) : a.ahead = [] := by
  cases ha : a.ahead with
  | nil => rfl
  | cons w ahead =>
    obtain ⟨body, -, rfl⟩ := h.ended w (ha ▸ mem_cons_self)
    rw [h.queue, ha, findIdx?_eq_none_iff] at hi
    have hd := hi d (by simp)
    simp at hd

end Taking

end Reiny.Lib.Outbox
