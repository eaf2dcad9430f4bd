import Reiny.Engine.LocalBus
import Reiny.Lib.Machine

/-! A latched subscriber: it asks each publisher that appears for its last value, and hands out what it is
told next to the live samples. -/

namespace Reiny.Pubsub

open Lib List
open Engine (Key Payload Delivery)

structure Stream where
  query : ℕ
  key : Key
deriving DecidableEq

structure Core where
  latched : List Stream
  latchedDone : Bool
  presenceDone : Bool
  queried : Finset Key
  seen : Finset Key
  keys : List Key
  nextQuery : ℕ

/-- What one round of `select` takes. A publisher that joined comes with whether the engine takes the query. -/
inductive Arrival
  | shutdown
  | joined (key : Key) (asked : Bool)
  | left (key : Key)
  | presenceEnded
  | reply (reply : Except Payload Delivery)
  | drained
  | live (sample : Delivery)
  | closed

inductive Outcome
  | quiet
  | asked (stream : Stream)
  | live (sample : Delivery)
  | retained (stream : Stream) (sample : Delivery)
  | ended
deriving DecidableEq

namespace Core

def declare (keys : List Key) (latched : Bool) : Core := ⟨[], true, !latched, ∅, ∅, keys, 0⟩

def admits (keys : List Key) (key : Key) : Bool := key.chunk.isNone && keys.any fun pattern => pattern.matches key

def onJoined (c : Core) (key : Key) (asked : Bool) : Outcome × Core :=
  if key.chunk.isNone ∧ key ∉ c.queried then
    let c := { c with queried := insert key c.queried }
    if asked then
      let stream : Stream := ⟨c.nextQuery, key⟩
      (.asked stream,
        { c with
          latched := c.latched ++ [stream]
          latchedDone := false
          nextQuery := c.nextQuery + 1 })
    else (.quiet, c)
  else (.quiet, c)

def onReply (c : Core) (stream : Stream) : Except Payload Delivery → Outcome
  | .error _ => .quiet
  | .ok sample => if !admits c.keys sample.key || sample.key ∈ c.seen then .quiet else .retained stream sample

def onLive (c : Core) (sample : Delivery) : Outcome × Core :=
  if admits c.keys sample.key then
    (.live sample, if c.presenceDone then c else { c with seen := insert sample.key c.seen })
  else (.quiet, c)

def recv (c : Core) : Arrival → Option (Outcome × Core)
  | .shutdown => some (.ended, c)
  | .joined key asked => if c.presenceDone then none else some (c.onJoined key asked)
  | .left key =>
    if c.presenceDone then none
    else some (.quiet, { c with queried := c.queried.erase key, seen := c.seen.erase key })
  | .presenceEnded => if c.presenceDone then none else some (.quiet, { c with presenceDone := true })
  | .reply reply =>
    match c.latchedDone, c.latched with
    | false, stream :: _ => some (c.onReply stream reply, c)
    | _, _ => none
  | .drained =>
    match c.latchedDone, c.latched with
    | false, _ :: rest => some (.quiet, { c with latched := rest, latchedDone := rest.isEmpty })
    | _, _ => none
  | .live sample => some (c.onLive sample)
  | .closed => some (.ended, c)

end Core

def LatestWins (outcomes : List Outcome) : Prop :=
  ∀ stream live reply, [.asked stream, .live live, .retained stream reply].Sublist outcomes → live.key ≠ stream.key

def Recalled (arrivals : List Arrival) (key : Key) : Prop :=
  ∃ before sample after, arrivals = before ++ .live sample :: after ∧ sample.key = key ∧
    .presenceEnded ∉ before ∧ .left key ∉ after

def Recalls (keys : List Key) (arrivals : List Arrival) : Prop :=
  ∀ before reply after outcomes c stream live, arrivals = before ++ .reply (.ok reply) :: after →
    Machine.run Core.recv (Core.declare keys true) before = some (outcomes, c) → c.latched.head? = some stream →
    [.asked stream, .live live].Sublist outcomes → live.key = stream.key → Core.admits keys reply.key = true →
    Recalled before reply.key

variable {arrivals : List Arrival} {key : Key} {keys : List Key} {c c' : Core} {arrival : Arrival}
  {outcome : Outcome}

lemma recalled_snoc : Recalled (arrivals ++ [arrival]) key ↔
    (∃ sample, arrival = .live sample ∧ sample.key = key ∧ .presenceEnded ∉ arrivals) ∨
      Recalled arrivals key ∧ arrival ≠ .left key := by
  constructor
  · rintro ⟨before, sample, after, heq, hk, ho, hs⟩
    rcases eq_nil_or_concat after with rfl | ⟨after, last, rfl⟩
    · obtain ⟨rfl, hl⟩ := append_inj' heq rfl
      exact .inl ⟨sample, singleton_inj.mp hl, hk, ho⟩
    · rw [concat_eq_append, ← cons_append, ← append_assoc] at heq
      obtain ⟨rfl, hl⟩ := append_inj' heq rfl
      rw [concat_eq_append, mem_append, not_or, mem_singleton] at hs
      refine .inr ⟨⟨before, sample, after, rfl, hk, ho, hs.1⟩, ?_⟩
      rw [singleton_inj.mp hl]
      exact fun h => hs.2 h.symm
  · rintro (⟨sample, rfl, hk, ho⟩ | ⟨⟨before, sample, after, rfl, hk, ho, hs⟩, hl⟩)
    · exact ⟨arrivals, sample, [], rfl, hk, ho, not_mem_nil⟩
    · refine ⟨before, sample, after ++ [arrival], by simp, hk, ho, ?_⟩
      rw [mem_append, not_or, mem_singleton]
      exact ⟨hs, fun h => hl h.symm⟩

structure Tracks (keys : List Key) (arrivals : List Arrival) (c : Core) : Prop where
  own : c.keys = keys
  watching : c.presenceDone = true ↔ .presenceEnded ∈ arrivals
  seen : ∀ key, Core.admits keys key = true → (key ∈ c.seen ↔ Recalled arrivals key)

lemma tracks_declare : Tracks keys [] (Core.declare keys true) where
  own := rfl
  watching := by simp [Core.declare]
  seen := by
    intro key _
    simp [Core.declare, Recalled]

lemma Tracks.other (h : Tracks keys arrivals c) (hk : c'.keys = c.keys) (hd : c'.presenceDone = c.presenceDone)
    (hs : c'.seen = c.seen) (hli : ∀ sample, arrival ≠ .live sample) (hl : ∀ key, arrival ≠ .left key)
    (he : arrival ≠ .presenceEnded) : Tracks keys (arrivals ++ [arrival]) c' := by
  refine ⟨hk.trans h.own, ?_, ?_⟩
  · rw [hd, h.watching, mem_append, mem_singleton]
    simp only [he.symm, or_false]
  · intro key hkey
    rw [hs, h.seen key hkey, recalled_snoc]
    simp only [hli, hl key, false_and, exists_false, false_or, ne_eq, not_false_eq_true, and_true]

lemma onJoined_same (key : Key) (asked : Bool) : (c.onJoined key asked).2.keys = c.keys ∧
    (c.onJoined key asked).2.presenceDone = c.presenceDone ∧ (c.onJoined key asked).2.seen = c.seen := by
  unfold Core.onJoined
  split_ifs <;> exact ⟨rfl, rfl, rfl⟩

lemma onLive_tracks (h : Tracks keys arrivals c) (sample : Delivery) :
    Tracks keys (arrivals ++ [.live sample]) (c.onLive sample).2 := by
  have hr (key : Key) : Recalled (arrivals ++ [.live sample]) key ↔
      (sample.key = key ∧ c.presenceDone = false) ∨ Recalled arrivals key := by
    rw [recalled_snoc, ← Bool.not_eq_true, h.watching]
    simp
  have hw : c.presenceDone = true ↔ .presenceEnded ∈ arrivals ++ [.live sample] := by
    rw [h.watching, mem_append, mem_singleton]
    simp
  unfold Core.onLive
  split_ifs with ha hd
  · refine ⟨h.own, hw, ?_⟩
    intro key hk
    rw [hr, h.seen key hk, hd]
    simp
  · refine ⟨h.own, hw, ?_⟩
    intro key hk
    rw [Bool.not_eq_true] at hd
    rw [hr, ← h.seen key hk, hd, Finset.mem_insert]
    simp [eq_comm]
  · refine ⟨h.own, hw, ?_⟩
    intro key hk
    have ho : sample.key ≠ key := by
      rintro rfl
      rw [h.own] at ha
      exact ha hk
    rw [hr, h.seen key hk]
    simp [ho]

lemma recv_tracks (h : Tracks keys arrivals c) (hs : c.recv arrival = some (outcome, c')) :
    Tracks keys (arrivals ++ [arrival]) c' := by
  cases arrival with
  | shutdown | closed =>
    cases hs
    exact h.other rfl rfl rfl (by simp) (by simp) (by simp)
  | joined key asked =>
    simp only [Core.recv] at hs
    split_ifs at hs
    obtain ⟨hke, hd, hse⟩ := @onJoined_same c key asked
    rw [Option.some.inj hs] at hke hd hse
    exact h.other hke hd hse (by simp) (by simp) (by simp)
  | left gone =>
    simp only [Core.recv] at hs
    split_ifs at hs with hd
    cases hs
    refine ⟨h.own, ?_, ?_⟩
    · rw [mem_append, mem_singleton, ← h.watching]
      simp
    · intro key hkey
      rw [Finset.mem_erase, h.seen key hkey, recalled_snoc]
      simp only [reduceCtorEq, false_and, exists_false, false_or, ne_eq, Arrival.left.injEq]
      exact ⟨fun hk => ⟨hk.2, fun he => hk.1 he.symm⟩, fun hk => ⟨fun he => hk.2 he.symm, hk.1⟩⟩
  | presenceEnded =>
    simp only [Core.recv] at hs
    split_ifs at hs with hd
    cases hs
    refine ⟨h.own, by simp, ?_⟩
    intro key hkey
    rw [h.seen key hkey, recalled_snoc]
    simp
  | reply | drained =>
    simp only [Core.recv] at hs
    split at hs
    · cases hs
      exact h.other rfl rfl rfl (by simp) (by simp) (by simp)
    · cases hs
  | live sample =>
    have hl := onLive_tracks h sample
    rwa [show c.onLive sample = (outcome, c') from Option.some.inj hs] at hl

variable {outcomes : List Outcome} {stream : Stream} {reply : Delivery}

lemma run_tracks (h : Machine.run Core.recv (Core.declare keys true) arrivals = some (outcomes, c)) :
    Tracks keys arrivals c := by
  have he := Machine.run_events (fun _ _ _ _ _ h hs => recv_tracks h hs)
    (@tracks_declare keys) h
  rwa [nil_append] at he

lemma sublist_last {α : Type} {first all : List α} {last : α} :
    (first ++ [last]).Sublist all ↔ ∃ before after, all = before ++ last :: after ∧ first.Sublist before := by
  rw [append_sublist_iff]
  constructor
  · rintro ⟨r₁, r₂, rfl, hf, hl⟩
    obtain ⟨x, y, rfl⟩ := append_of_mem (singleton_sublist.mp hl)
    exact ⟨r₁ ++ x, y, by simp, hf.trans (sublist_append_left r₁ x)⟩
  · rintro ⟨before, after, rfl, hf⟩
    exact ⟨before, last :: after, rfl, hf, singleton_sublist.mpr mem_cons_self⟩

lemma recv_retained : (∃ c', c.recv arrival = some (.retained stream reply, c')) ↔
    arrival = .reply (.ok reply) ∧ c.latchedDone = false ∧ c.latched.head? = some stream ∧
      Core.admits c.keys reply.key = true ∧ reply.key ∉ c.seen := by
  constructor
  · rintro ⟨c', hs⟩
    cases arrival with
    | shutdown | closed => cases hs
    | left | presenceEnded =>
      simp only [Core.recv] at hs
      split_ifs at hs
      cases hs
    | joined key asked =>
      simp only [Core.recv, Core.onJoined] at hs
      split_ifs at hs <;> cases hs
    | live sample =>
      simp only [Core.recv, Core.onLive] at hs
      split_ifs at hs <;> cases hs
    | drained =>
      simp only [Core.recv] at hs
      split at hs <;> cases hs
    | reply taken =>
      simp only [Core.recv] at hs
      split at hs
      · rename_i first rest hd hl
        cases taken with
        | error => cases hs
        | ok sample =>
          simp only [Core.onReply] at hs
          split_ifs at hs with hla
          · cases hs
          · cases hs
            simp only [Bool.or_eq_true, Bool.not_eq_true', decide_eq_true_eq, not_or, Bool.not_eq_false] at hla
            exact ⟨rfl, hd, by rw [hl]; rfl, hla.1, hla.2⟩
      · cases hs
  · rintro ⟨rfl, hd, hh, ha, hfr⟩
    obtain ⟨rest, hl⟩ := head?_eq_some_iff.mp hh
    refine ⟨c, ?_⟩
    simp only [Core.recv, hd, hl, Core.onReply, ha, hfr, Bool.not_true, decide_false, Bool.or_self,
      Bool.false_eq_true, if_false]

lemma recv_reply {taken : Except Payload Delivery} {outcome : Outcome}
    (h : c.recv (.reply taken) = some (outcome, c')) : c.latchedDone = false := by
  simp only [Core.recv] at h
  split at h
  · assumption
  · cases h

theorem latest_wins (h : Machine.run Core.recv (Core.declare keys true) arrivals = some (outcomes, c)) :
    LatestWins outcomes ↔ Recalls keys arrivals := by
  constructor
  · intro hw before reply after told middle stream live ha hb hh ho hk had
    by_contra hf
    subst ha
    obtain ⟨told', outcome, later, middle', next, hb', hst, rfl⟩ := Machine.run_at h
    rw [hb] at hb'
    cases hb'
    have ht := run_tracks hb
    have hfr : reply.key ∉ middle.seen := fun hse => hf ((ht.seen _ had).mp hse)
    rw [← ht.own] at had
    obtain ⟨next', hst'⟩ := recv_retained.mpr ⟨rfl, recv_reply hst, hh, had, hfr⟩
    rw [hst] at hst'
    cases hst'
    have hs : ([Outcome.asked stream, .live live] ++ [Outcome.retained stream reply]).Sublist
        (told ++ Outcome.retained stream reply :: later) := sublist_last.mpr ⟨told, later, rfl, ho⟩
    exact hw stream live reply hs hk
  · intro hr stream live reply hs hk
    have hs' : ([Outcome.asked stream, .live live] ++ [Outcome.retained stream reply]).Sublist outcomes := hs
    obtain ⟨told, later, rfl, ho⟩ := sublist_last.mp hs'
    obtain ⟨before, arrival, after, middle, next, rfl, hb, hst⟩ := Machine.run_answer h
    obtain ⟨rfl, -, hh, had, hfr⟩ := recv_retained.mp ⟨next, hst⟩
    have ht := run_tracks hb
    rw [ht.own] at had
    exact hfr ((ht.seen _ had).mpr
      (hr before reply after told middle stream live rfl hb hh ho hk had))

def armPose : Key := .output "robot" "arm" "pose" "Pose"

def poseSample (n : UInt8) : Delivery := ⟨armPose, [n], none, some 0⟩

def lateReply : List Arrival :=
  [.joined armPose true, .live (poseSample 2), .left armPose, .reply (.ok (poseSample 1))]

def lateOutcomes : List Outcome :=
  [.asked ⟨0, armPose⟩, .live (poseSample 2), .quiet, .retained ⟨0, armPose⟩ (poseSample 1)]

theorem latest_loses :
    (Machine.run Core.recv (Core.declare [armPose] true) lateReply).map (·.1) = some lateOutcomes ∧
    ¬ LatestWins lateOutcomes := by
  refine ⟨by decide +kernel, ?_⟩
  intro hw
  refine hw ⟨0, armPose⟩ (poseSample 2) (poseSample 1) ?_ rfl
  exact .cons_cons _ (.cons_cons _ (.cons _ (.cons_cons _ .slnil)))

def timelyReply : List Arrival := [.joined armPose true, .live (poseSample 2), .reply (.ok (poseSample 1))]

theorem latest_wins_timely : Recalls [armPose] timelyReply := by
  have ho : (Machine.run Core.recv (Core.declare [armPose] true) timelyReply).map (·.1) =
      some [.asked ⟨0, armPose⟩, .live (poseSample 2), .quiet] := by decide +kernel
  obtain ⟨⟨outcomes, c⟩, hr, rfl⟩ := Option.map_eq_some_iff.mp ho
  refine (latest_wins hr).mp ?_
  intro stream live reply hs
  have hm : Outcome.retained stream reply ∈ [Outcome.asked ⟨0, armPose⟩, .live (poseSample 2), .quiet] :=
    hs.subset (by simp)
  simp at hm

end Reiny.Pubsub
