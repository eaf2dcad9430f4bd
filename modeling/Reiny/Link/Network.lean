import Reiny.Link.Framing
import Reiny.Link.Attribution

/-! Two links joined by a byte transport in each direction, and what holds of the bytes and messages
between them. -/

namespace Reiny.Link

open Lib Words Utf8 Results Wire HelloFormat HelloCodec Ports State List

variable {N FRAME : ℕ}

inductive Fresh : Link N FRAME → Prop
  | new {id : Str} {ports : List StaticPort} {txCap rxCap : ℕ} {l : Link N FRAME}
      (h : Link.new id ports txCap rxCap = .ok l) : Fresh l
  | configure {l : Link N FRAME} (h : Fresh l) (config : LinkConfig) : Fresh (l.withConfig config)
  | declare {l : Link N FRAME} (h : Fresh l) {name : Str} {d : PortDirection} {flag : UInt8} {ty : PortType}
      {response : Option PortType} (hflag : FlagsOk flag d) : Fresh (l.declare name d flag ty response).2

structure Sent where
  ty : PortType
  name : Str
  msg : Bytes
deriving DecidableEq

/-- One end of the wire, with the bytes in transit towards it, the sends that returned `true` and the events of `next`. -/
structure Party (N FRAME : ℕ) where
  link : Link N FRAME
  inbox : Bytes
  sent : List Sent
  received : List (Frame × Link N FRAME)

inductive Act
  | send (ty : PortType) (name : Str) (msg : Bytes)
  | drain (room : ℕ)
  | drainFrame (room : ℕ)
  | feed (n : ℕ)
  | next
  | tick (nowMs : UInt32)

def dataOf (event : Option Event) (l : Link N FRAME) : List (Frame × Link N FRAME) :=
  match event with
  | some (.data frame) => [(frame, l)]
  | _ => []

def Party.act (C : Codec) (p : Party N FRAME) : Act → Party N FRAME × Bytes
  | .send ty name msg =>
    let (r, link) := p.link.send C ty name msg
    ({ p with link, sent := if r = .ok true then p.sent ++ [⟨ty, name, msg⟩] else p.sent }, [])
  | .drain room =>
    let (out, link) := p.link.drain C room
    ({ p with link }, out)
  | .drainFrame room =>
    let (out, link) := p.link.drainFrame C room
    ({ p with link }, out.getD [])
  -- What was not accepted stays in the inbox and is fed again.
  | .feed n =>
    let (accepted, link) := p.link.feed C (p.inbox.take n)
    ({ p with link, inbox := p.inbox.drop accepted }, [])
  | .next =>
    let (event, link) := p.link.next C
    ({ p with link, received := p.received ++ dataOf event link }, [])
  | .tick nowMs =>
    let (_, link) := p.link.tick C nowMs
    ({ p with link }, [])

def Act.Allowed (C : Codec) (p : Party N FRAME) : Act → Prop
  | .drainFrame room => encodedMax C FRAME ≤ room
  | .tick nowMs => (p.link.tick C nowMs).1 ≠ some .disconnected
  | _ => True

def Party.takes (p : Party N FRAME) (bytes : Bytes) : Party N FRAME := { p with inbox := p.inbox ++ bytes }

inductive Steps (C : Codec) : Party N FRAME × Party N FRAME → Party N FRAME × Party N FRAME → Prop
  | refl (n : Party N FRAME × Party N FRAME) : Steps C n n
  | left {n : Party N FRAME × Party N FRAME} {p q : Party N FRAME} (h : Steps C n (p, q)) (a : Act)
      (ha : a.Allowed C p) : Steps C n ((p.act C a).1, q.takes (p.act C a).2)
  | right {n : Party N FRAME × Party N FRAME} {p q : Party N FRAME} (h : Steps C n (p, q)) (a : Act)
      (ha : a.Allowed C q) : Steps C n (p.takes (q.act C a).2, (q.act C a).1)

def Party.start (l : Link N FRAME) : Party N FRAME := ⟨l, [], [], []⟩

structure Delivered (id : Str) (s : Sent) (r : Frame × Link N FRAME) : Prop where
  address : r.1.hash = endpointHash id s.name
  decoded : ∀ (M : Type) (T : MessageType M) (m : M), T.contract = s.ty → T.encode m = s.msg →
    T.decode (T.encode m) = some m → r.2.decode T r.1 = some m

inductive Item
  | hello (ack : Bool)
  | ping
  | data (seq : UInt8) (s : Sent)

def Item.frame (X : Link N FRAME) : Item → WireFrame
  | .hello ack => (⟨.hello, 0, 0⟩, helloBytes ack false X.id X.localEntries)
  | .ping => (⟨.ping, 0, 0⟩, [])
  | .data seq s => (⟨.data, endpointHash X.id s.name, seq⟩, s.msg)

def Item.sent : Item → List Sent
  | .data _ s => [s]
  | _ => []

structure Wanted (X Y : Link N FRAME) (s : Sent) : Prop where
  matched : AllMatched X.toTables Y.toTables
  wanted : (Y.localSource (endpointHash X.id s.name) SUB).isSome = true
  published : ∃ t, X.localType (endpointHash X.id s.name) = some t ∧ t.flags &&& PUB ≠ 0 ∧ t.name = s.ty.ty ∧
    t.schema = s.ty.schema

structure Side (C : Codec) (X : Link N FRAME) (c : Core N FRAME) : Prop where
  inv : Inv c.tables
  id : c.tables.id = X.id
  locals : c.tables.locals = X.locals
  announced : Announced FRAME false X.id X.locals
  own : Inv X.toTables
  txRoom : encodedMax C FRAME ≤ c.txCap
  rxRoom : encodedMax C FRAME ≤ c.rxCap
  synced : c.rxSkip = false
  kept : c.dropped = (0, 0)

structure Channel (C : Codec) (X Y : Link N FRAME) (x : Core N FRAME) (sent : List Sent) (line : Bytes)
    (y : Core N FRAME) (received : List (Frame × Link N FRAME)) (items : List Item) : Prop where
  stream : y.unread ++ line ++ x.tx = items.flatMap fun i => wireBytes C (i.frame X)
  fit : ∀ i ∈ items, Fitting FRAME (i.frame X)
  wanted : ∀ i ∈ items, ∀ s ∈ i.sent, Wanted X Y s
  log : ∃ done, sent = done ++ items.flatMap Item.sent ∧ List.Forall₂ (Delivered X.id) done received
  known : y.tables.connected = true → AllMatched X.toTables Y.toTables ∧
    ∃ ack, y.tables.peerHello = helloBytes ack false X.id X.localEntries
  quiet : x.tables.started = false → items = []
  first : y.tables.connected = true ∨ x.tables.started = false ∨ ¬ AllMatched X.toTables Y.toTables ∨
    ∃ ack rest, items = .hello ack :: rest

variable {C : Codec} {X Y : Link N FRAME} {x x' y y' : Core N FRAME} {sent : List Sent} {line : Bytes}
  {received : List (Frame × Link N FRAME)} {items : List Item} {i : Item}

section

variable (h : Channel C X Y x sent line y received items)

include h

lemma Channel.frames : ∃ fs : List WireFrame,
    (∀ f ∈ fs, Fitting FRAME f) ∧ y.unread ++ line ++ x.tx = fs.flatMap (wireBytes C) := by
  refine ⟨items.map (Item.frame X), ?_, ?_⟩
  · intro f hf
    obtain ⟨i, hi, rfl⟩ := mem_map.mp hf
    exact h.fit i hi
  · rw [h.stream, flatMap_map]

lemma Channel.sender (htx : x'.tx = x.tx) (hs : x'.tables.started = x.tables.started) :
    Channel C X Y x' sent line y received items where
  stream := by rw [htx]; exact h.stream
  fit := h.fit
  wanted := h.wanted
  log := h.log
  known := h.known
  quiet := by rw [hs]; exact h.quiet
  first := by rw [hs]; exact h.first

lemma Channel.receiver (hu : y'.unread = y.unread) (hc : y'.tables.connected = y.tables.connected)
    (hp : y'.tables.peerHello = y.tables.peerHello) :
    Channel C X Y x sent line y' received items where
  stream := by rw [hu]; exact h.stream
  fit := h.fit
  wanted := h.wanted
  log := h.log
  known := by rw [hc, hp]; exact h.known
  quiet := h.quiet
  first := by rw [hc]; exact h.first

lemma Channel.queue (hs : x.tables.started = true) (hf : Fitting FRAME (i.frame X))
    (hw : ∀ s ∈ i.sent, Wanted X Y s) :
    Channel C X Y { x with tx := x.tx ++ wireBytes C (i.frame X) } (sent ++ i.sent) line y received
      (items ++ [i]) where
  stream := by
    rw [flatMap_append, flatMap_singleton, ← h.stream, append_assoc, append_assoc, append_assoc]
  fit := by
    intro j hj
    rcases mem_append.mp hj with hj | hj
    · exact h.fit j hj
    · rw [mem_singleton.mp hj]
      exact hf
  wanted := by
    intro j hj
    rcases mem_append.mp hj with hj | hj
    · exact h.wanted j hj
    · rw [mem_singleton.mp hj]
      exact hw
  log := by
    obtain ⟨done, rfl, hd⟩ := h.log
    exact ⟨done, by rw [flatMap_append, flatMap_singleton, append_assoc], hd⟩
  known := h.known
  quiet := fun hq => absurd (hs.symm.trans hq) (by decide)
  first := by
    rcases h.first with hc | hq | hm | ⟨ack, rest, rfl⟩
    · exact .inl hc
    · exact absurd (hs.symm.trans hq) (by decide)
    · exact .inr (.inr (.inl hm))
    · exact .inr (.inr (.inr ⟨ack, rest ++ [i], rfl⟩))

lemma Channel.start (hs : x.tables.started = false) (hf : Fitting FRAME ((Item.hello false).frame X)) :
    Channel C X Y { x with tables := { x.tables with started := true }
                           tx := x.tx ++ wireBytes C ((Item.hello false).frame X) }
      sent line y received [.hello false] where
  stream := by
    have hn := h.stream
    rw [h.quiet hs, flatMap_nil] at hn
    rw [flatMap_singleton, ← append_assoc, hn, nil_append]
  fit := by
    intro j hj
    rw [mem_singleton.mp hj]
    exact hf
  wanted := by
    intro j hj s hs
    rw [mem_singleton.mp hj] at hs
    cases hs
  log := by
    obtain ⟨done, hd, hr⟩ := h.log
    rw [h.quiet hs] at hd
    exact ⟨done, hd, hr⟩
  known := h.known
  quiet := fun hq => by cases hq
  first := Or.inr (.inr (.inr ⟨false, [], rfl⟩))

lemma Channel.drain (n : ℕ) :
    Channel C X Y { x with tx := x.tx.drop n } sent (line ++ x.tx.take n) y received items where
  stream := by
    rw [← h.stream, append_assoc, append_assoc, take_append_drop, append_assoc]
  fit := h.fit
  wanted := h.wanted
  log := h.log
  known := h.known
  quiet := h.quiet
  first := h.first

lemma Channel.feed (n : ℕ) :
    Channel C X Y x sent (line.drop n) { y with unread := y.unread ++ line.take n } received items where
  stream := by
    rw [← h.stream, append_assoc y.unread, take_append_drop]
  fit := h.fit
  wanted := h.wanted
  log := h.log
  known := h.known
  quiet := h.quiet
  first := h.first

end

lemma Channel.pop {new : List (Frame × Link N FRAME)} (h : Channel C X Y x sent line y received (i :: items))
    (hu : y.unread = wireBytes C (i.frame X) ++ y'.unread)
    (hk : y'.tables.connected = true → AllMatched X.toTables Y.toTables ∧
      ∃ ack, y'.tables.peerHello = helloBytes ack false X.id X.localEntries)
    (hf : y'.tables.connected = true ∨ ¬ AllMatched X.toTables Y.toTables)
    (hn : List.Forall₂ (Delivered X.id) i.sent new) :
    Channel C X Y x sent line y' (received ++ new) items where
  stream := by
    have hs := h.stream
    rw [hu, flatMap_cons, append_assoc, append_assoc, append_cancel_left_eq] at hs
    rw [append_assoc]
    exact hs
  fit := fun j hj => h.fit j (mem_cons_of_mem _ hj)
  wanted := fun j hj => h.wanted j (mem_cons_of_mem _ hj)
  log := by
    obtain ⟨done, rfl, hd⟩ := h.log
    exact ⟨done ++ i.sent, by rw [flatMap_cons, append_assoc], rel_append hd hn⟩
  known := hk
  quiet := fun hq => absurd (h.quiet hq) (cons_ne_nil _ _)
  first := hf.imp id fun hm => Or.inr (.inl hm)

end Reiny.Link
