import Reiny.Link.Consistency
import Reiny.Link.Host

namespace Reiny.Link

open Std Lib Words Utf8 Results Machine Maps Wire HelloFormat HelloCodec Ports State List Option

variable {N FRAME : ℕ}

section Pairs

variable {t t' : Tables N FRAME} {hash : UInt32} {seq : UInt8}

def Live (t : Tables N FRAME) (p : UInt32 × UInt8) : Prop := some p ∈ t.pending

lemma live_iff {p : UInt32 × UInt8} : Live t p ↔ ∃ i : Fin N, getElem t.pending i i.isLt = some p := by
  constructor
  · intro h
    obtain ⟨i, hi, he⟩ := Vector.getElem_of_mem h
    exact ⟨⟨i, hi⟩, he⟩
  · rintro ⟨i, hi⟩
    rw [Live, ← hi]
    exact Vector.getElem_mem i.isLt

lemma cancel_live (hi : Consistent t) (hash : UInt32) (seq : UInt8) (p : UInt32 × UInt8) :
    Live (t.cancelRequest hash seq) p ↔ Live t p ∧ p ≠ (hash, seq) := by
  unfold Tables.cancelRequest
  split
  · rename_i hn
    have ha : ¬ Live t (hash, seq) := by
      rw [live_iff]
      rintro ⟨i, hi⟩
      have := Vector.findFinIdx?_eq_none_iff.mp hn t.pending[i] (Vector.getElem_mem i.isLt)
      simp [hi] at this
    exact ⟨fun h => ⟨h, fun he => ha (he ▸ h)⟩, And.left⟩
  · rename_i slot hs
    have hh : t.pending[slot] = some (hash, seq) := by
      simpa using slot_found hs
    simp only [live_iff, slot_set]
    constructor
    · rintro ⟨i, hp⟩
      split_ifs at hp with hne
      refine ⟨⟨i, hp⟩, ?_⟩
      rintro rfl
      exact hne (hi.distinct slot i _ hh hp)
    · rintro ⟨⟨i, hp⟩, hne⟩
      refine ⟨i, ?_⟩
      rw [if_neg, hp]
      rintro rfl
      rw [hh] at hp
      exact hne (some.inj hp).symm

lemma request_live {free : Fin N} (hf : getElem t.pending free free.isLt = none) (p : UInt32 × UInt8) :
    Live ({ t with pending := t.pending.set free (some (hash, seq)) free.isLt } : Tables N FRAME) p ↔
      Live t p ∨ p = (hash, seq) := by
  simp only [live_iff, slot_set]
  constructor
  · rintro ⟨i, hp⟩
    split_ifs at hp with he
    · exact .inr (some.inj hp).symm
    · exact .inl ⟨i, hp⟩
  · rintro (⟨i, hp⟩ | rfl)
    · refine ⟨i, ?_⟩
      rw [if_neg, hp]
      rintro rfl
      rw [hf] at hp
      cases hp
    · exact ⟨free, if_pos rfl⟩

end Pairs

section Events

variable {C : Codec} {l l' : Link N FRAME}

def Tells (live live' : UInt32 × UInt8 → Prop) : Option Event → Prop
  | some .disconnected => ∀ p, ¬ live' p
  | some (.reply f) => f.kind = .reply ∧ live (f.hash, f.seq) ∧ ∀ p, live' p ↔ live p ∧ p ≠ (f.hash, f.seq)
  | some (.error f) => f.kind = .error ∧ live (f.hash, f.seq) ∧ ∀ p, live' p ↔ live p ∧ p ≠ (f.hash, f.seq)
  | none => ∀ p, live' p ↔ live p
  | some (.connected _) => ∀ p, live' p ↔ live p
  | some (.data _) => ∀ p, live' p ↔ live p
  | some (.request _) => ∀ p, live' p ↔ live p

variable {event : Option Event}

lemma Tells.congr {live₁ live₂ live' : UInt32 × UInt8 → Prop} (h : ∀ p, live₂ p ↔ live₁ p)
    (ht : Tells live₂ live' event) : Tells live₁ live' event := by
  obtain rfl : live₂ = live₁ := funext fun p => propext (h p)
  exact ht

lemma onHello_tells (hi : Consistent l.toTables) (frame : Frame) :
    Tells (Live l.toTables) (Live (l.onHello C frame).2.toTables) (l.onHello C frame).1 := by
  have he : ∀ p, ¬ Live l.forgetPeer p := fun p => (Consistent.forget l.toTables).unasked rfl p
  unfold onHello
  split
  · cases hc : l.connected with
    | true =>
      simp only [refuseHello, hc, if_true]
      exact he
    | false =>
      simp only [refuseHello, hc, Bool.false_eq_true, if_false]
      exact fun p => ⟨fun h => absurd h (he p), fun h => absurd h (hi.unasked hc p)⟩
  · rw [acceptHello_tables]
    unfold acceptHello
    dsimp only
    split_ifs <;> exact fun p => Iff.rfl

lemma onReply_tells (hi : Consistent l.toTables) (frame : Frame) :
    (frame.kind = .reply → Tells (Live l.toTables) (Live (l.onReply frame (.reply frame)).2.toTables)
      (l.onReply frame (.reply frame)).1) ∧
    (frame.kind = .error → Tells (Live l.toTables) (Live (l.onReply frame (.error frame)).2.toTables)
      (l.onReply frame (.error frame)).1) := by
  unfold onReply
  split_ifs with hc
  · exact ⟨fun _ _ => Iff.rfl, fun _ _ => Iff.rfl⟩
  · simp only [Bool.or_eq_true, Bool.not_eq_true', not_or, Bool.not_eq_false] at hc
    have hl : Live l.toTables (frame.hash, frame.seq) := by
      simpa [Live] using hc.2
    exact ⟨fun hk => ⟨hk, hl, cancel_live hi _ _⟩, fun hk => ⟨hk, hl, cancel_live hi _ _⟩⟩

lemma onData_tells (l : Link N FRAME) (frame : Frame) :
    Tells (Live l.toTables) (Live (l.onData frame).2.toTables) (l.onData frame).1 := by
  rw [onData_tables]
  unfold onData
  split_ifs <;> exact fun p => Iff.rfl

lemma onRequest_tells (l : Link N FRAME) (frame : Frame) :
    Tells (Live l.toTables) (Live (l.onRequest C frame).2.toTables) (l.onRequest C frame).1 := by
  rw [onRequest_tables]
  unfold onRequest
  dsimp only
  split_ifs <;> exact fun p => Iff.rfl

lemma dispatch_tells (hi : Consistent l.toTables) (frame : Frame) :
    Tells (Live l.toTables) (Live (l.dispatch C frame).2.toTables) (l.dispatch C frame).1 := by
  unfold dispatch
  split
  · exact onHello_tells hi frame
  · exact fun p => Iff.rfl
  · exact onData_tells l frame
  · exact onRequest_tells l frame
  · exact (onReply_tells hi frame).1 ‹_›
  · exact (onReply_tells hi frame).2 ‹_›

lemma start_live (l : Link N FRAME) (p : UInt32 × UInt8) :
    Live (l.ensureStarted C).toTables p ↔ Live l.toTables p := by
  rw [ensureStarted_tables]
  rfl

lemma next_tells (hi : Consistent l.toTables) :
    Tells (Live l.toTables) (Live (l.next C).2.toTables) (l.next C).1 :=
  (next_rule (Q := fun t event t' => Tells (Live t) (Live t') event) (fun _ _ => Iff.rfl)
    (fun _ frame hi => dispatch_tells hi frame) (fun _ _ _ _ h h' => h'.congr h) hi).congr (start_live l)

lemma tick_tells (l : Link N FRAME) (nowMs : UInt32) :
    Tells (Live l.toTables) (Live (l.tick C nowMs).2.toTables) (l.tick C nowMs).1 := by
  unfold tick
  dsimp only
  split_ifs
  · exact fun p => start_live ({ l with nowMs, lastRxMs := nowMs } : Link N FRAME) p
  · exact fun p => (Consistent.forget l.toTables).unasked rfl p
  · rw [emit_tables]
    exact fun p => Iff.rfl
  · exact fun p => Iff.rfl
  · rw [queueHello_tables]
    exact fun p => Iff.rfl
  · exact fun p => Iff.rfl

lemma feed_live (l : Link N FRAME) (bytes : Bytes) (p : UInt32 × UInt8) :
    Live (l.feed C bytes).2.toTables p ↔ Live l.toTables p := by
  unfold feed
  rw [feedLoop_tables, rxCompact_tables]
  exact start_live l p

lemma requestRaw_live {hash : UInt32} {payload : Bytes} :
    (∃ e, (l.requestRaw C hash payload).1 = .error e ∧ (l.requestRaw C hash payload).2.toTables = l.toTables) ∨
    ∃ seq, (l.requestRaw C hash payload).1 = .ok seq ∧ ¬ Live l.toTables (hash, seq) ∧
      ∀ p, Live (l.requestRaw C hash payload).2.toTables p ↔ Live l.toTables p ∨ p = (hash, seq) := by
  have hem : (∃ e, (l.emitRequest C hash payload).1 = .error e ∧
      (l.emitRequest C hash payload).2.toTables = l.toTables) ∨
      ∃ seq, (l.emitRequest C hash payload).1 = .ok seq ∧ ¬ Live l.toTables (hash, seq) ∧
        ∀ p, Live (l.emitRequest C hash payload).2.toTables p ↔ Live l.toTables p ∨ p = (hash, seq) := by
    unfold emitRequest
    split
    · rename_i free seq hf hs
      have hn : l.pending[free] = none := by
        simpa using slot_found hf
      have ht := emit_tables (C := C) l .request hash seq payload
      split <;> rename_i he <;> rw [he] at ht
      · exact .inl ⟨_, rfl, ht⟩
      · refine .inr ⟨seq, rfl, freeSeq_fresh l hs, fun p => ?_⟩
        rw [← request_live hn, ← ht]
    · exact .inl ⟨_, rfl, rfl⟩
  unfold requestRaw guarded
  repeat' split
  · exact .inl ⟨_, rfl, rfl⟩
  · exact .inl ⟨_, rfl, rfl⟩
  · exact .inl ⟨_, rfl, rfl⟩
  · exact hem

end Events

structure Ledger where
  waits : ℕ → Option (UInt32 × UInt8)
  nextToken : ℕ

namespace Ledger

def empty : Ledger := ⟨fun _ => none, 0⟩

def book (L : Ledger) : Notice → Ledger
  | .started token key _ => ⟨Function.update L.waits token (some key), L.nextToken + 1⟩
  | .completed token _ _ => { L with waits := Function.update L.waits token none }
  | .released token => { L with waits := Function.update L.waits token none }
  | .cleared => { L with waits := fun _ => none }
  | .event _ => L
  | .refused _ => L

def Allows (L : Ledger) : Notice → Prop
  | .started token key previous => token = L.nextToken ∧ previous = none ∧ ∀ k, L.waits k ≠ some key
  | .completed token f result => L.waits token = some (f.hash, f.seq) ∧
      (f.kind = .reply ∧ result.isOk = true ∨ f.kind = .error ∧ result.isOk = false)
  | .released token => (L.waits token).isSome = true
  | .cleared => True
  | .event _ => True
  | .refused _ => True

def AllowsAll : Ledger → List Notice → Prop
  | _, [] => True
  | L, n :: ns => L.Allows n ∧ AllowsAll (L.book n) ns

def bookAll (L : Ledger) (ns : List Notice) : Ledger := ns.foldl book L

variable {L : Ledger} {ns : List Notice} {token : ℕ}

lemma allowsAll_append {ns' : List Notice} :
    L.AllowsAll (ns ++ ns') ↔ L.AllowsAll ns ∧ (L.bookAll ns).AllowsAll ns' := by
  induction ns generalizing L with
  | nil => exact ⟨fun h => ⟨trivial, h⟩, And.right⟩
  | cons n ns ih =>
    rw [cons_append, AllowsAll, AllowsAll, ih, and_assoc]
    rfl

def Closed (L : Ledger) (token : ℕ) : Prop := token < L.nextToken ∧ L.waits token = none

def Orderly (L : Ledger) : Prop := ∀ token, L.nextToken ≤ token → L.waits token = none

lemma book_cases (L : Ledger) (n : Notice) (hn : L.Allows n) :
    L.nextToken ≤ (L.book n).nextToken ∧ ∀ token, (token = L.nextToken ∧ (L.book n).nextToken = token + 1) ∨
      (L.book n).waits token = L.waits token ∨ (L.book n).waits token = none := by
  cases n with
  | started k key previous =>
    obtain ⟨rfl, -, -⟩ := hn
    refine ⟨Nat.le_succ _, fun token => ?_⟩
    by_cases ht : token = L.nextToken
    · exact .inl ⟨ht, congrArg (· + 1) ht.symm⟩
    · exact .inr (.inl (Function.update_of_ne ht _ _))
  | completed k | released k =>
    refine ⟨le_rfl, fun token => Or.inr ?_⟩
    by_cases ht : token = k
    · exact .inr (ht ▸ Function.update_self _ _ _)
    · exact .inl (Function.update_of_ne ht _ _)
  | cleared => exact ⟨le_rfl, fun token => Or.inr (.inr rfl)⟩
  | event | refused => exact ⟨le_rfl, fun token => Or.inr (.inl rfl)⟩

variable {n : Notice}

lemma Orderly.book (h : L.Orderly) (hn : L.Allows n) : (L.book n).Orderly := by
  obtain ⟨hle, hc⟩ := L.book_cases n hn
  intro token ht
  rcases hc token with ⟨-, he⟩ | he | he
  · omega
  · rw [he]
    exact h token (hle.trans ht)
  · exact he

lemma Closed.book (h : L.Closed token) (hn : L.Allows n) : (L.book n).Closed token := by
  obtain ⟨hle, hc⟩ := L.book_cases n hn
  refine ⟨h.1.trans_le hle, ?_⟩
  rcases hc token with ⟨he, -⟩ | he | he
  · exact absurd he h.1.ne
  · exact he.trans h.2
  · exact he

lemma Closed.not_completed (h : L.Closed token) (hns : L.AllowsAll ns) (f : Frame)
    (result : Except Bytes Bytes) : .completed token f result ∉ ns := by
  induction ns generalizing L with
  | nil => exact not_mem_nil
  | cons n ns ih =>
    rw [mem_cons, not_or]
    refine ⟨?_, ih (h.book hns.1) hns.2⟩
    rintro rfl
    have hw := hns.1.1
    rw [h.2] at hw
    cases hw

lemma Orderly.bookAll (h : L.Orderly) (hns : L.AllowsAll ns) : (L.bookAll ns).Orderly := by
  induction ns generalizing L with
  | nil => exact h
  | cons n ns ih => exact ih (h.book hns.1) hns.2

lemma completed_once {before after : List Notice} {f f' : Frame} {result result' : Except Bytes Bytes}
    (h : empty.AllowsAll (before ++ .completed token f result :: after)) :
    .completed token f' result' ∉ after := by
  obtain ⟨hb, hn, ha⟩ := allowsAll_append.mp h
  have ho : (empty.bookAll before).Orderly := Orderly.bookAll (fun _ _ => rfl) hb
  refine Closed.not_completed ⟨?_, Function.update_self _ _ _⟩ ha f' result'
  by_contra hle
  have := ho token (Nat.not_lt.mp hle)
  rw [hn.1] at this
  cases this

end Ledger

section Hosts

variable {C : Codec} {L : Ledger} {h h' : Host N FRAME} {l : Link N FRAME}

structure Booked (L : Ledger) (h : Host N FRAME) : Prop where
  consistent : Consistent h.link.toTables
  keys : ∀ p, p ∈ h.pending ↔ Live h.link.toTables p
  waits : ∀ token p, L.waits token = some p ↔ h.pending[p]? = some token
  tokens : L.nextToken = h.nextToken
  orderly : L.Orderly

def Accounts (L : Ledger) (x : List Notice × Host N FRAME) : Prop :=
  L.AllowsAll x.1 ∧ Booked (L.bookAll x.1) x.2

lemma Booked.accounts (hb : Booked L h) : Accounts L ([], h) := ⟨trivial, hb⟩

variable {ns : List Notice} {waits : ℕ → Option (UInt32 × UInt8)} {k : ℕ}

lemma Accounts.append {ns' : List Notice} (h₁ : Accounts L (ns, h)) (h₂ : Accounts (L.bookAll ns) (ns', h')) :
    Accounts L (ns ++ ns', h') := by
  refine ⟨Ledger.allowsAll_append.mpr ⟨h₁.1, h₂.1⟩, ?_⟩
  rw [Ledger.bookAll, List.foldl_append]
  exact h₂.2

lemma Booked.withLink (hb : Booked L h) (hi : Consistent l.toTables)
    (hl : ∀ p, Live l.toTables p ↔ Live h.link.toTables p) : Booked L (h.withLink l) where
  consistent := hi
  keys := fun p => (hb.keys p).trans (hl p).symm
  waits := hb.waits
  tokens := hb.tokens
  orderly := hb.orderly

lemma Booked.sameTables (hb : Booked L h) (ht : l.toTables = h.link.toTables) : Booked L (h.withLink l) :=
  hb.withLink (ht ▸ hb.consistent) fun p => by rw [ht]

variable {pending : ExtTreeMap (UInt32 × UInt8) ℕ} {key : UInt32 × UInt8}

lemma waits_erase (hw : ∀ token p, waits token = some p ↔ pending[p]? = some token)
    (hk : pending[key]? = some k) (token : ℕ) (p : UInt32 × UInt8) :
    Function.update waits k none token = some p ↔ (pending.erase key)[p]? = some token := by
  simp only [ExtTreeMap.getElem?_erase, LawfulEqOrd.compare_eq_iff_eq]
  by_cases ht : token = k
  · subst ht
    rw [Function.update_self]
    split_ifs with hp
    · simp
    · rw [← hw, (hw token key).mpr hk]
      exact ⟨nofun, fun he => absurd (some.inj he) hp⟩
  · rw [Function.update_of_ne ht]
    split_ifs with hp
    · subst hp
      rw [hw, hk]
      exact ⟨fun he => absurd (some.inj he).symm ht, nofun⟩
    · exact hw token p

lemma waits_insert (hw : ∀ token p, waits token = some p ↔ pending[p]? = some token) (hk : waits k = none)
    (hkey : pending[key]? = none) (token : ℕ) (p : UInt32 × UInt8) :
    Function.update waits k (some key) token = some p ↔ (pending.insert key k)[p]? = some token := by
  simp only [ExtTreeMap.getElem?_insert, LawfulEqOrd.compare_eq_iff_eq]
  by_cases ht : token = k
  · subst ht
    rw [Function.update_self]
    split_ifs with hp
    · simp [hp]
    · rw [← hw, hk]
      exact ⟨fun he => absurd (some.inj he) hp, nofun⟩
  · rw [Function.update_of_ne ht]
    split_ifs with hp
    · subst hp
      rw [hw, hkey]
      exact ⟨nofun, fun he => absurd (some.inj he).symm ht⟩
    · exact hw token p

lemma keys_erase {live live' : UInt32 × UInt8 → Prop} (hk : ∀ p, p ∈ pending ↔ live p)
    (hl : ∀ p, live' p ↔ live p ∧ p ≠ key) (p : UInt32 × UInt8) : p ∈ pending.erase key ↔ live' p := by
  rw [ExtTreeMap.mem_erase, hl, hk, ne_eq, LawfulEqOrd.compare_eq_iff_eq]
  exact ⟨fun ⟨hne, h⟩ => ⟨h, fun he => hne he.symm⟩, fun ⟨h, hne⟩ => ⟨fun he => hne he.symm, h⟩⟩

lemma Booked.answer (hb : Booked L h) (hi : Consistent l.toTables) {f : Frame} {result : Except Bytes Bytes}
    (hf : f.kind = .reply ∧ result.isOk = true ∨ f.kind = .error ∧ result.isOk = false)
    (hli : Live h.link.toTables (f.hash, f.seq))
    (hl : ∀ p, Live l.toTables p ↔ Live h.link.toTables p ∧ p ≠ (f.hash, f.seq)) :
    Accounts L ((h.withLink l).answer f result) := by
  obtain ⟨k, hk⟩ := some_of_mem ((hb.keys _).mpr hli)
  have hfo : (h.withLink l).pending[(f.hash, f.seq)]? = some k := hk
  unfold Host.answer
  rw [hfo]
  have ha : L.Allows (.completed k f result) := ⟨(hb.waits _ _).mpr hk, hf⟩
  exact ⟨⟨ha, trivial⟩, hi, keys_erase hb.keys hl, waits_erase hb.waits hk, hb.tokens, hb.orderly.book ha⟩

lemma deliver_accounts (hb : Booked L h) (f : Frame) (event : Delivery → HostEvent) :
    Accounts L (h.deliver f event) := by
  unfold Host.deliver
  split
  · exact hb.accounts
  · exact ⟨⟨trivial, trivial⟩, hb⟩

lemma Booked.convert (hb : Booked L h) (hi : Consistent l.toTables) {event : Event}
    (ht : Tells (Live h.link.toTables) (Live l.toTables) (some event)) :
    Accounts L ((h.withLink l).convert event) := by
  cases event with
  | connected f =>
    have hb' := hb.withLink hi ht
    dsimp only [Host.convert]
    split
    · exact hb'.accounts
    · exact ⟨⟨trivial, trivial⟩, hb'.consistent, hb'.keys, hb'.waits, hb'.tokens, hb'.orderly⟩
  | disconnected =>
    refine ⟨⟨trivial, trivial, trivial⟩, hi, ?_, ?_, hb.tokens, fun _ _ => rfl⟩
    · exact fun p => ⟨fun hp => absurd hp ExtTreeMap.not_mem_empty, fun hp => absurd hp (ht p)⟩
    · intro token p
      change none = some p ↔ (∅ : ExtTreeMap (UInt32 × UInt8) ℕ)[p]? = some token
      simp
  | data f | request f => exact deliver_accounts (hb.withLink hi ht) f _
  | reply f => exact hb.answer hi (Or.inl ⟨ht.1, rfl⟩) ht.2.1 ht.2.2
  | error f => exact hb.answer hi (Or.inr ⟨ht.1, rfl⟩) ht.2.1 ht.2.2

lemma collectLoop_accounts (fuel : ℕ) (hb : Booked L h) : Accounts L (h.collectLoop C fuel) := by
  induction fuel generalizing L h with
  | zero => exact hb.accounts
  | succ fuel ih =>
    have hi := PeerSteps.consistent (next_steps (C := C) h.link) hb.consistent
    have ht := next_tells (C := C) hb.consistent
    unfold Host.collectLoop
    split <;> rename_i hn <;> rw [hn] at hi ht
    · exact (hb.withLink hi ht).accounts
    · have hc := hb.convert hi ht
      exact hc.append (ih hc.2)

lemma collect_accounts (hb : Booked L h) : Accounts L (h.collect C) := collectLoop_accounts _ hb

lemma poll_accounts (hb : Booked L h) (nowMs : UInt32) : Accounts L (h.poll C nowMs) := by
  have hi := PeerSteps.consistent (tick_steps (C := C) h.link nowMs) hb.consistent
  have ht := tick_tells (C := C) h.link nowMs
  unfold Host.poll
  split <;> rename_i hn <;> rw [hn] at hi ht
  · exact collect_accounts (hb.withLink hi ht)
  · have hc := hb.convert hi ht
    exact hc.append (collect_accounts hc.2)

lemma receiveLoop_accounts (fuel : ℕ) (hb : Booked L h) (rest : Bytes) :
    Accounts L (h.receiveLoop C fuel rest) := by
  induction fuel generalizing L h rest with
  | zero => exact hb.accounts
  | succ fuel ih =>
    unfold Host.receiveLoop
    split_ifs
    · exact hb.accounts
    · have hi := PeerSteps.consistent (feed_steps (C := C) h.link rest) hb.consistent
      have hc : Accounts L ((h.withLink (h.link.feed C rest).2).collect C) :=
        collect_accounts (hb.withLink hi (feed_live h.link rest))
      dsimp only
      split_ifs
      · exact hc
      · exact hc.append (ih hc.2 _)

lemma call_accounts (hb : Booked L h) (hash : UInt32) (payload : Bytes) : Accounts L (h.call C hash payload) := by
  have hi := TableSteps.consistent (requestRaw_performed (C := C) h.link hash payload).steps hb.consistent
  unfold Host.call
  rcases @requestRaw_live N FRAME C h.link hash payload with ⟨e, he, ht⟩ | ⟨seq, hs, hfr, hl⟩
  · split <;> rename_i hr <;> rw [hr] at he ht
    · exact ⟨⟨trivial, trivial⟩, hb.sameTables ht⟩
    · cases he
  · split <;> rename_i hr <;> rw [hr] at hs hl hi
    · cases hs
    · cases hs
      have hkey : (hash, seq) ∉ h.pending := fun hk => hfr ((hb.keys _).mp hk)
      have hn : h.pending[(hash, seq)]? = none := ExtTreeMap.getElem?_eq_none hkey
      have ha : L.Allows (.started h.nextToken (hash, seq) h.pending[(hash, seq)]?) := by
        refine ⟨hb.tokens.symm, hn, fun k hk => ?_⟩
        rw [hb.waits, hn] at hk
        cases hk
      refine ⟨⟨ha, trivial⟩, hi, ?_, ?_, congrArg (· + 1) hb.tokens, hb.orderly.book ha⟩
      · intro p
        rw [hl, ExtTreeMap.mem_insert, hb.keys, LawfulEqOrd.compare_eq_iff_eq, or_comm, eq_comm]
      · apply waits_insert hb.waits _ hn
        exact hb.orderly _ hb.tokens.le

lemma drop_accounts (hb : Booked L h) (r : CallReservation) : Accounts L (h.dropReservation r) := by
  unfold Host.dropReservation
  dsimp only
  split_ifs with hk
  · have ha : L.Allows (.released r.token) := by
      rw [Ledger.Allows, (hb.waits _ _).mpr hk]
      rfl
    exact ⟨⟨ha, trivial⟩, hb.consistent.cancel _ _, keys_erase hb.keys (cancel_live hb.consistent _ _),
      waits_erase hb.waits hk, hb.tokens, hb.orderly.book ha⟩
  · exact ⟨trivial, hb.consistent, hb.keys, hb.waits, hb.tokens, hb.orderly⟩

lemma Booked.started (hb : Booked L h) (ht : l.toTables = { h.link.toTables with started := true }) :
    Booked L (h.withLink l) := by
  obtain ⟨h₁, h₂, h₃, h₄⟩ := hb.consistent
  refine hb.withLink ?_ ?_ <;> rw [ht]
  · exact ⟨h₁, h₂, h₃, h₄⟩
  · exact fun p => Iff.rfl

lemma step_accounts (hb : Booked L h) {op : HostOp} (hs : h.step C op = some (ns, h')) :
    Accounts L (ns, h') := by
  cases op with
  | call hash payload => exact some.inj hs ▸ call_accounts hb hash payload
  | drop r =>
    simp only [Host.step] at hs
    split_ifs at hs
    exact some.inj hs ▸ drop_accounts hb r
  | poll nowMs => exact some.inj hs ▸ poll_accounts hb nowMs
  | receive bytes => exact some.inj hs ▸ receiveLoop_accounts _ hb bytes
  | drain room =>
    cases hs
    refine (hb.started ?_).accounts
    exact ensureStarted_tables h.link
  | drainFrame room =>
    cases hs
    refine (hb.started ?_).accounts
    unfold drainFrame
    dsimp only
    repeat' split
    all_goals exact ensureStarted_tables h.link
  | send ty name msg =>
    cases hs
    exact (hb.sameTables (apply_sends h.link (.send ty name msg) rfl).tables).accounts
  | sendRaw hash payload =>
    cases hs
    exact (hb.sameTables (apply_sends h.link (.sendRaw hash payload) rfl).tables).accounts
  | reply S name seq resp =>
    cases hs
    exact (hb.sameTables (apply_sends h.link (.reply S name seq resp) rfl).tables).accounts
  | replyRaw seq hash schema payload =>
    cases hs
    exact (hb.sameTables (apply_sends h.link (.replyRaw seq hash schema payload) rfl).tables).accounts
  | replyErr S name seq message =>
    cases hs
    exact (hb.sameTables (apply_sends h.link (.replyErr S name seq message) rfl).tables).accounts
  | replyErrRaw seq hash message =>
    cases hs
    exact (hb.sameTables (apply_sends h.link (.replyErrRaw seq hash message) rfl).tables).accounts

lemma run_accounts {ops : List HostOp} {notices : List (List Notice)} (hb : Booked Ledger.empty h)
    (hr : run (Host.step C) h ops = some (notices, h')) : Accounts Ledger.empty (notices.flatten, h') := by
  have hst : ∀ (rs : List (List Notice)) (s : Host N FRAME) (op : HostOp) (ns : List Notice) (s' : Host N FRAME),
      Accounts Ledger.empty (rs.flatten, s) → s.step C op = some (ns, s') →
        Accounts Ledger.empty ((rs ++ [ns]).flatten, s') := by
    intro rs s op ns s' hrs hs
    rw [flatten_append, flatten_singleton]
    exact hrs.append (step_accounts hrs.2 hs)
  exact @run_history _ _ _ (Host.step C) h h' notices ops (fun rs s => Accounts Ledger.empty (rs.flatten, s)) hst []
    hb.accounts hr

lemma spawn_booked (hi : Consistent l.toTables) (hn : ∀ p, ¬ Live l.toTables p) :
    Booked Ledger.empty (Host.spawn l) where
  consistent := hi
  keys := fun p => ⟨fun hp => absurd hp ExtTreeMap.not_mem_empty, fun hp => absurd hp (hn p)⟩
  waits := fun token p => by simp [Ledger.empty, Host.spawn]
  tokens := rfl
  orderly := fun _ _ => rfl

def waitsFor (notices : List Notice) (token : ℕ) : Option (UInt32 × UInt8) :=
  (Ledger.empty.bookAll notices).waits token

theorem host_link_agree {start : Link N FRAME} (hstart : Opened start) {ops : List Op}
    {events : List (Option Event)}
    (hused : run (act C) start ops = some (events, l)) (hnone : ∀ p, some p ∉ l.pending)
    {hostOps : List HostOp} {notices : List (List Notice)}
    (hrun : run (Host.step C) (Host.spawn l) hostOps = some (notices, h)) :
    (∀ p, p ∈ h.pending ↔ some p ∈ h.link.pending) ∧
    (∀ before token f result after, notices.flatten = before ++ .completed token f result :: after →
      waitsFor before token = some (f.hash, f.seq) ∧
      (f.kind = .reply ∧ result.isOk = true ∨ f.kind = .error ∧ result.isOk = false) ∧
      ∀ f' result', .completed token f' result' ∉ before ++ after) ∧
    (∀ before token key previous after, notices.flatten = before ++ .started token key previous :: after →
      previous = none ∧ ∀ k, waitsFor before k ≠ some key) := by
  have hi : Consistent l.toTables :=
    run_invariant (P := fun l => Consistent l.toTables) act_consistent hstart.consistent hused
  obtain ⟨ha, hb⟩ := run_accounts (spawn_booked hi hnone) hrun
  refine ⟨hb.keys, ?_, ?_⟩
  · intro before token f result after hsp
    change Ledger.empty.AllowsAll notices.flatten at ha
    rw [hsp] at ha
    obtain ⟨-, ⟨hw, hf⟩, -⟩ := Ledger.allowsAll_append.mp ha
    refine ⟨hw, hf, fun f' result' hm => ?_⟩
    rcases mem_append.mp hm with hm | hm
    · obtain ⟨first, rest, rfl⟩ := append_of_mem hm
      rw [append_assoc, cons_append] at ha
      exact Ledger.completed_once ha (mem_append_right _ mem_cons_self)
    · exact Ledger.completed_once ha hm
  · intro before token key previous after hsp
    change Ledger.empty.AllowsAll notices.flatten at ha
    rw [hsp] at ha
    obtain ⟨-, ⟨-, hp, hfr⟩, -⟩ := Ledger.allowsAll_append.mp ha
    exact ⟨hp, hfr⟩

end Hosts

def sumService : Service := ⟨⟨⟨[83], by decide⟩, 5⟩, ⟨⟨[82], by decide⟩, 6⟩⟩

def sumPort : Str := ⟨[115], by decide⟩

def serverPorts : List StaticPort :=
  [⟨sumPort, .rpcServer, sumService.request.ty, sumService.request.schema, some sumService.response, []⟩]

def server : Link 2 128 := ((initial boardId serverPorts 400 400).rpcServer sumService sumPort).2

def bridgeEnd : Link 2 128 := intoBridge (initial hostId [] 400 400)

def sumHash : UInt32 := endpointHash boardId sumPort

def serverHello : Bytes := wireBytes standard (⟨.hello, 0, 0⟩, helloBytes true false boardId server.localEntries)

def sumReply : Bytes := wireBytes standard (⟨.reply, sumHash, 0⟩, [6, 0, 0, 0, 0, 0, 0, 0, 9])

def sumOps : List HostOp :=
  [.receive serverHello, .call sumHash [1, 2], .receive sumReply, .drop ⟨sumHash, 0, 0⟩, .call sumHash [3]]

def completions (notices : List Notice) : List (ℕ × Frame) :=
  notices.filterMap fun n =>
    match n with
    | .completed token f _ => some (token, f)
    | _ => none

lemma mem_completions {notices : List Notice} {token : ℕ} {f : Frame} (h : (token, f) ∈ completions notices) :
    ∃ result, .completed token f result ∈ notices := by
  obtain ⟨n, hn, he⟩ := mem_filterMap.mp h
  cases n with
  | completed k g result =>
    cases he
    exact ⟨result, hn⟩
  | _ => cases he

theorem host_link_agree_sum : ∃ notices h before f result after,
    run (Host.step standard) (Host.spawn bridgeEnd) sumOps = some (notices, h) ∧
    notices.flatten = before ++ .completed 0 f result :: after ∧ waitsFor before 0 = some (sumHash, 0) ∧
    (∀ p, p ∈ h.pending ↔ some p ∈ h.link.pending) := by
  have ho : Opened bridgeEnd := .bridge (new_ok.mpr ⟨by decide, by decide, by decide, by decide, rfl⟩)
  have hs : (run (Host.step standard) (Host.spawn bridgeEnd) sumOps).map (fun x => completions x.1.flatten) =
      some [(0, ⟨.reply, sumHash, 0, 9, 3⟩)] := by
    decide +kernel
  obtain ⟨⟨notices, h⟩, hr, hc⟩ := map_eq_some_iff.mp hs
  have hu : run (act standard) bridgeEnd [] = some ([], bridgeEnd) := rfl
  have hn : ∀ p, some p ∉ bridgeEnd.pending := ho.consistent.unasked rfl
  obtain ⟨hk, ha, -⟩ := host_link_agree ho hu hn hr
  obtain ⟨result, hm⟩ := mem_completions (hc ▸ mem_singleton_self _)
  obtain ⟨before, after, hsp⟩ := append_of_mem hm
  exact ⟨notices, h, before, _, result, after, hr, hsp, (ha _ _ _ _ _ hsp).1, hk⟩

end Reiny.Link
