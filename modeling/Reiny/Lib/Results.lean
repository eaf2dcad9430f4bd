import Mathlib.Tactic

/-! When a computation that can fail returns a value. -/

namespace Reiny.Lib.Results

open List

variable {ε α β : Type}

def ensure (c : Prop) [Decidable c] (e : ε) : Except ε Unit :=
  if c then .ok () else .error e

def ofOption (o : Option α) (e : ε) : Except ε α :=
  match o with
  | some a => .ok a
  | none => .error e

/-- How code that indexes maps fails: with an error of its own, or on a key that is not there. -/
inductive Abort (ε : Type)
  | missed
  | failed (e : ε)
deriving DecidableEq

def index {K V : Type} [Ord K] (m : Std.ExtTreeMap K V) [Std.TransOrd K] (k : K) : Except (Abort ε) V :=
  ofOption m[k]? .missed

variable {f : α → Except ε β} {b : β} {x : Except ε α} {e : ε} {c : Prop} {a : α} {o : Option α} {l : List α}
  {bs : List β} {u : Unit} {P : β → Prop} {b' : β}

lemma bind_ok : x >>= f = .ok b ↔ ∃ a, x = .ok a ∧ f a = .ok b := by
  cases x with
  | error | ok => simp [bind, Except.bind]

lemma ensure_ok [Decidable c] : ensure c e = .ok u ↔ c := by
  unfold ensure
  split_ifs with h <;> simp [h]

lemma ensure_bind_ok [Decidable c] {f : Unit → Except ε β} : ensure c e >>= f = .ok b ↔ c ∧ f () = .ok b := by
  rw [bind_ok]
  exact ⟨fun ⟨_, hc, hf⟩ => ⟨ensure_ok.mp hc, hf⟩, fun ⟨hc, hf⟩ => ⟨(), ensure_ok.mpr hc, hf⟩⟩

lemma pure_ok {b : α} : (pure a : Except ε α) = .ok b ↔ a = b := by
  change Except.ok a = .ok b ↔ a = b
  rw [Except.ok.injEq]

lemma ofOption_ok : ofOption o e = .ok a ↔ o = some a := by
  cases o with
  | none => simp [ofOption]
  | some b => simp [ofOption]

lemma forM_ok {f : α → Except ε Unit} : l.forM f = .ok u ↔ ∀ a ∈ l, f a = .ok () := by
  induction l with
  | nil =>
    change (pure () : Except ε Unit) = .ok u ↔ _
    rw [pure_ok]
    simp
  | cons a l ih =>
    change f a >>= (fun _ => l.forM f) = .ok u ↔ _
    rw [bind_ok, forall_mem_cons]
    exact ⟨fun ⟨_, ha, hl⟩ => ⟨ha, ih.mp hl⟩, fun ⟨ha, hl⟩ => ⟨_, ha, ih.mpr hl⟩⟩

lemma forM_congr {f g : α → Except ε Unit} (h : ∀ a ∈ l, f a = g a) : l.forM f = l.forM g := by
  induction l with
  | nil => rfl
  | cons a l ih =>
    change f a >>= (fun _ => l.forM f) = g a >>= fun _ => l.forM g
    rw [h a List.mem_cons_self, ih fun b hb => h b (List.mem_cons_of_mem _ hb)]

lemma mapM_mem (h : l.mapM f = .ok bs) (b : β) : b ∈ bs ↔ ∃ a ∈ l, f a = .ok b := by
  induction l generalizing bs with
  | nil =>
    cases pure_ok.mp h
    simp
  | cons a l ih =>
    rw [mapM_cons] at h
    obtain ⟨b', hb', h⟩ := bind_ok.mp h
    obtain ⟨bs', hbs', h⟩ := bind_ok.mp h
    cases pure_ok.mp h
    rw [mem_cons, ih hbs', exists_mem_cons_iff, hb', Except.ok.injEq, eq_comm]

lemma mapM_each (h : l.mapM f = .ok bs) (ha : a ∈ l) : ∃ b, f a = .ok b := by
  induction l generalizing bs with
  | nil => cases ha
  | cons a' l ih =>
    rw [mapM_cons] at h
    obtain ⟨b, hb, h⟩ := bind_ok.mp h
    obtain ⟨bs', hbs, -⟩ := bind_ok.mp h
    rcases mem_cons.mp ha with rfl | ha
    · exact ⟨b, hb⟩
    · exact ih hbs ha

lemma mapM_congr {g : α → Except ε β} (h : ∀ a ∈ l, f a = g a) : l.mapM f = l.mapM g := by
  induction l with
  | nil => rfl
  | cons a l ih =>
    rw [mapM_cons, mapM_cons, h a mem_cons_self, ih fun b hb => h b (mem_cons_of_mem _ hb)]

lemma mapM_inverse {g : β → Except ε α} (h : l.mapM f = .ok bs)
    (hin : ∀ a ∈ l, ∀ b, f a = .ok b → g b = .ok a) : List.Forall₂ (fun b a => g b = .ok a) bs l := by
  induction l generalizing bs with
  | nil =>
    cases pure_ok.mp h
    exact .nil
  | cons a l ih =>
    rw [forall_mem_cons] at hin
    rw [mapM_cons] at h
    obtain ⟨b, hb, h⟩ := bind_ok.mp h
    obtain ⟨bs', hbs, h⟩ := bind_ok.mp h
    cases pure_ok.mp h
    exact .cons (hin.1 b hb) (ih hbs hin.2)

lemma mapM_total (h : ∀ a ∈ l, ∃ b, f a = .ok b) : ∃ bs, l.mapM f = .ok bs := by
  induction l with
  | nil => exact ⟨[], rfl⟩
  | cons a l ih =>
    obtain ⟨b, hb⟩ := h a mem_cons_self
    obtain ⟨bs, hbs⟩ := ih fun c hc => h c (mem_cons_of_mem _ hc)
    refine ⟨b :: bs, ?_⟩
    rw [mapM_cons, hb, hbs]
    rfl

lemma foldlM_invariant {f : β → α → Except ε β} (hs : ∀ a ∈ l, ∀ b b', P b → f b a = .ok b' → P b')
    (hb : P b) (h : l.foldlM f b = .ok b') : P b' := by
  induction l generalizing b with
  | nil =>
    cases pure_ok.mp h
    exact hb
  | cons a l ih =>
    rw [forall_mem_cons] at hs
    rw [foldlM_cons] at h
    obtain ⟨mid, hm, h⟩ := bind_ok.mp h
    exact ih hs.2 (hs.1 b mid hb hm) h

lemma foldlM_each {f : β → α → Except ε β} (h : l.foldlM f b = .ok b') (ha : a ∈ l) :
    ∃ c c', f c a = .ok c' := by
  induction l generalizing b with
  | nil => cases ha
  | cons first l ih =>
    rw [foldlM_cons] at h
    obtain ⟨mid, hm, h⟩ := bind_ok.mp h
    rcases mem_cons.mp ha with rfl | ha
    · exact ⟨b, mid, hm⟩
    · exact ih h ha

lemma foldlM_total {f : β → α → Except ε β} (hs : ∀ a ∈ l, ∀ b, P b → ∃ b', f b a = .ok b' ∧ P b')
    (hb : P b) : ∃ b', l.foldlM f b = .ok b' ∧ P b' := by
  induction l generalizing b with
  | nil => exact ⟨b, rfl, hb⟩
  | cons a l ih =>
    rw [forall_mem_cons] at hs
    obtain ⟨mid, hm, hp⟩ := hs.1 b hb
    obtain ⟨b', hb', hp'⟩ := ih hs.2 hp
    refine ⟨b', ?_, hp'⟩
    rw [foldlM_cons, hm]
    exact hb'

lemma toOption_some : x.toOption = some a ↔ x = .ok a := by
  cases x <;> simp [Except.toOption]

lemma mapError_ok {δ : Type} {f : ε → δ} : x.mapError f = .ok a ↔ x = .ok a := by
  cases x with
  | error | ok => simp [Except.mapError]

def Hits (x : Except (Abort ε) α) : Prop := x ≠ .error .missed

lemma hits_ok (a : α) : Hits (.ok a : Except (Abort ε) α) := by
  intro h
  cases h

lemma hits_failed (e : ε) : Hits (.error (.failed e) : Except (Abort ε) α) := by
  intro h
  cases h

lemma Hits.bind {x : Except (Abort ε) α} {f : α → Except (Abort ε) β} (hx : Hits x)
    (hf : ∀ a, x = .ok a → Hits (f a)) : Hits (x >>= f) := by
  cases x with
  | error e => exact fun h => hx (by cases h; rfl)
  | ok a => exact hf a rfl

lemma hits_ensure [Decidable c] : Hits (ensure c (.failed e)) := by
  unfold ensure
  split_ifs
  · exact hits_ok ()
  · exact hits_failed e

lemma hits_ofOption : Hits (ofOption o (.failed e)) := by
  cases o with
  | none => exact hits_failed e
  | some a => exact hits_ok a

lemma hits_found (h : o.isSome = true) : Hits (ofOption o .missed : Except (Abort ε) α) := by
  obtain ⟨a, rfl⟩ := Option.isSome_iff_exists.mp h
  exact hits_ok a

lemma hits_forM {f : α → Except (Abort ε) Unit} (h : ∀ a ∈ l, Hits (f a)) : Hits (l.forM f) := by
  induction l with
  | nil => exact hits_ok ()
  | cons a l ih =>
    exact (h a mem_cons_self).bind fun _ _ => ih fun b hb => h b (mem_cons_of_mem _ hb)

lemma hits_foldlM {f : β → α → Except (Abort ε) β} (h : ∀ b, ∀ a ∈ l, Hits (f b a)) (b : β) :
    Hits (l.foldlM f b) := by
  induction l generalizing b with
  | nil => exact hits_ok b
  | cons a l ih =>
    rw [foldlM_cons]
    refine (h b a mem_cons_self).bind fun b' _ => ?_
    exact ih (fun b a ha => h b a (mem_cons_of_mem _ ha)) b'

end Reiny.Lib.Results
