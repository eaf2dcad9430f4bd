import Reiny.Lib.Slices
import Reiny.Link.Consistency
import Reiny.Link.Reassembly

/-! The receiving half of a link as it works in memory. -/

namespace Reiny.Link

open Lib Words Results Slices Reassembly Wire HelloFormat HelloCodec Ports State List Option

variable {N FRAME : ℕ}

structure InPlace (C : Codec) where
  leaves : Bytes → Bytes
  size : ∀ bs, (leaves bs).length = bs.length
  decoded : ∀ bs raw, C.cobsDecode bs = some raw → leaves bs = raw ++ bs.drop raw.length

def parseAt (C : Codec) (frame : Bytes) : Option (Except WireError (Header × Bytes)) :=
  if frame.length < OVERHEAD then some (.error .short)
  else do
    let bodyLen ← less frame.length TRAILER
    let low ← frame[bodyLen]?
    let high ← frame[bodyLen + 1]?
    let checked ← slice frame 0 bodyLen
    if C.crc checked ≠ UInt16.ofNat (ofLe [low, high]) then return .error .crc
    else
      let magic ← slice frame 0 3
      if magic ≠ [82, 89, EPOCH] then return .error .epoch
      else
        let code ← frame[3]?
        match Kind.fromU8 code with
        | none => return .error (.kind code)
        | some kind =>
          let h₀ ← frame[4]?
          let h₁ ← frame[5]?
          let h₂ ← frame[6]?
          let h₃ ← frame[7]?
          let seq ← frame[8]?
          let payload ← slice frame HEADER bodyLen
          return .ok (⟨kind, UInt32.ofNat (ofLe [h₀, h₁, h₂, h₃]), seq⟩, payload)

structure Range where
  lo : ℕ
  hi : ℕ
  size : ℕ

def Range.Within (r : Range) : Prop := r.lo ≤ r.hi ∧ r.hi ≤ r.size

instance (r : Range) : Decidable r.Within := inferInstanceAs (Decidable (_ ∧ _))

section Sending

variable (C : Codec)

-- The ranges of `scratch` that `seal` fills.
def sealRanges (FRAME len : ℕ) : List Range :=
  if OVERHEAD + len > FRAME then []
  else [⟨0, 3, FRAME⟩, ⟨3, 4, FRAME⟩, ⟨4, 8, FRAME⟩, ⟨8, 9, FRAME⟩, ⟨0, HEADER + len, FRAME⟩,
    ⟨HEADER + len, OVERHEAD + len, FRAME⟩]

-- The ranges of `scratch` and `tx` that `emit` takes, those of `encode` included.
def emitRanges (l : Link N FRAME) (kind : Kind) (hash : UInt32) (seq : UInt8) (payload : Bytes) : List Range :=
  sealRanges FRAME payload.length ++
    match sealFrame C FRAME ⟨kind, hash, seq⟩ payload with
    | .error _ => []
    | .ok raw =>
      ⟨l.tx.length, l.txCap, l.txCap⟩ ::
        if l.txCap - l.tx.length < encodedMax C raw.length then []
        else [⟨0, raw.length, FRAME⟩, ⟨0, (C.cobsEncode raw).length, l.txCap - l.tx.length⟩,
          ⟨(C.cobsEncode raw).length, (C.cobsEncode raw).length + 1, l.txCap - l.tx.length⟩]

def helloRanges (l : Link N FRAME) (ack : Bool) : List Range :=
  [⟨TRAILER, FRAME, FRAME⟩, ⟨HEADER, FRAME - TRAILER, FRAME⟩] ++
    match helloWrite (FRAME - TRAILER - HEADER) ack l.bridge l.id l.localEntries with
    | .error _ => []
    | .ok payload => ⟨HEADER, HEADER + payload.length, FRAME⟩ ::
      match helloParse payload with
      | .error _ => []
      | .ok _ => emitRanges C l .hello 0 0 payload

def startRanges (l : Link N FRAME) : List Range :=
  if l.started then [] else helloRanges C ({ l with started := true } : Link N FRAME) false

def errorRanges (l : Link N FRAME) (hash : UInt32) (seq : UInt8) (message : Bytes) : List Range :=
  let len := min message.length (FRAME - OVERHEAD)
  [⟨HEADER, HEADER + len, FRAME⟩, ⟨0, len, message.length⟩] ++ emitRanges C l .error hash seq (message.take len)

-- A connected link compares the Hello with the one it keeps.
def compareRanges (l : Link N FRAME) (payload : Bytes) : List Range :=
  if (helloParse payload).isOk ∧ payload.length ≤ FRAME ∧ l.connected ∧ l.peerHello.length = payload.length then
    [⟨0, 1, FRAME⟩, ⟨0, 1, payload.length⟩, ⟨1, l.peerHello.length, FRAME⟩, ⟨1, payload.length, payload.length⟩]
  else []

def onHelloRanges (l : Link N FRAME) (size : ℕ) (frame : Frame) : List Range :=
  let payload := l.rxPayload frame.len
  ⟨HEADER, HEADER + frame.len, size⟩ :: compareRanges l payload ++
    match l.validateHello payload with
    | .error _ => []
    | .ok contract => ⟨0, payload.length, FRAME⟩ ::
      if contract.ack then [] else helloRanges C (l.withTables (l.adopt payload contract)) true

def onRequestRanges (l : Link N FRAME) (frame : Frame) : List Range :=
  let served := (l.localType frame.hash).any fun t => t.flags &&& SERVE != 0
  let caller := (l.remoteSource frame.hash CALLS).isSome
  if !l.connected || (!l.peerBridge && !caller) then
    errorRanges C l.dropUnwanted frame.hash frame.seq (text "undeclared source")
  else if served || (l.bridge && caller) then []
  else errorRanges C l.dropUnwanted frame.hash frame.seq (text "no such service")

def dispatchRanges (l : Link N FRAME) (size : ℕ) (frame : Frame) : List Range :=
  match frame.kind with
  | .hello => onHelloRanges C l size frame
  | .request => onRequestRanges C l frame
  | .ping | .data | .reply | .error => []

end Sending

/-- A link whose receive buffer is the memory `rx`, of which the first `rxLen` bytes are in use. All its other
fields are those of `link`. -/
structure Memory (N FRAME : ℕ) where
  rx : Bytes
  rxLen : ℕ
  link : Link N FRAME

namespace Memory

variable (C : Codec) (I : InPlace C)

def view (m : Memory N FRAME) : Link N FRAME := { m.link with rx := m.rx.take m.rxLen, rxCap := m.rx.length }

def within (m : Memory N FRAME) (ranges : List Range) (link : Link N FRAME) : Option (Memory N FRAME) :=
  if ∀ r ∈ ranges, r.Within then some { m with link } else none

def ensureStarted (m : Memory N FRAME) : Option (Memory N FRAME) :=
  m.within (startRanges C m.view) (m.view.ensureStarted C)

def rxDiscard (m : Memory N FRAME) (n : ℕ) : Option (Memory N FRAME) := do
  let rx ← copyWithin m.rx n m.rxLen 0
  let rxLen ← less m.rxLen n
  return ⟨rx, rxLen, { m.link with rxGeneration := m.link.rxGeneration + 1 }⟩

def rxCompact (m : Memory N FRAME) : Option (Memory N FRAME) :=
  if m.link.rxConsumed > 0 then rxDiscard { m with link := { m.link with rxConsumed := 0 } } m.link.rxConsumed
  else some m

def feedLoop : ℕ → Memory N FRAME → Bytes → Option (Memory N FRAME × Bytes)
  | 0, _, _ => none
  | fuel + 1, m, rest =>
    if rest = [] then some (m, [])
    else if m.link.rxSkip then
      match rest.findIdx? (· == DELIMITER) with
      | none => some (m, [])
      | some i => do
        let rest ← slice rest (i + 1) rest.length
        feedLoop fuel { m with link := { m.link with rxSkip := false } } rest
    else do
      let free ← less m.rx.length m.rxLen
      if free = 0 then
        let held ← slice m.rx 0 m.rxLen
        if DELIMITER ∈ held then return (m, rest)
        else feedLoop fuel { m with rxLen := 0, link := { m.link.countRxOverflow with rxSkip := true } } rest
      else
        let n := min free rest.length
        let bytes ← slice rest 0 n
        let rx ← overwrite m.rx m.rxLen (m.rxLen + n) bytes
        let rest ← slice rest n rest.length
        feedLoop fuel { m with rx, rxLen := m.rxLen + n } rest

def feed (m : Memory N FRAME) (bytes : Bytes) : Option (ℕ × Memory N FRAME) := do
  let m ← m.ensureStarted C
  let m ← m.rxCompact
  let (m, rest) ← feedLoop (2 * bytes.length + 1) m bytes
  let accepted ← less bytes.length rest.length
  return (accepted, m)

def decodeFrame (m : Memory N FRAME) (frameEnd : ℕ) : Option (Option Frame × Memory N FRAME) := do
  let encoded ← slice m.rx 0 frameEnd
  let rx ← overwrite m.rx 0 frameEnd (I.leaves encoded)
  match C.cobsDecode encoded with
  | none => return (none, { m with rx })
  | some raw =>
    if raw.length > FRAME then return (none, { m with rx })
    else
      let raw ← slice rx 0 raw.length
      match ← parseAt C raw with
      | .error _ => return (none, { m with rx })
      | .ok (header, payload) =>
        return (if payload.length ≤ 65535 then some ⟨header.kind, header.hash, header.seq,
          payload.length, 0⟩ else none,
          { m with rx })

def dispatch (m : Memory N FRAME) (frame : Frame) : Option (Option Event × Memory N FRAME) := do
  let m' ← m.within (dispatchRanges C m.view m.rx.length frame) (m.view.dispatch C frame).2
  return ((m.view.dispatch C frame).1, m')

def nextLoop : ℕ → Memory N FRAME → Option (List (Call N FRAME) × Option Event × Memory N FRAME)
  | 0, _ => none
  | fuel + 1, m => do
    let held ← slice m.rx 0 m.rxLen
    match held.findIdx? (· == DELIMITER) with
    | none => return ([], none, m)
    | some 0 =>
      let m ← m.rxDiscard 1
      nextLoop fuel m
    | some frameEnd =>
      match ← m.decodeFrame C I frameEnd with
      | (none, m) =>
        let m ← rxDiscard { m with link := m.link.badFrame } (frameEnd + 1)
        nextLoop fuel m
      | (some frame, m) =>
        let generation := m.link.rxGeneration + 1
        let m := { m with link := { m.link with
          rxConsumed := frameEnd + 1, rxGeneration := generation, lastRxMs := m.link.nowMs } }
        let frame := { frame with generation }
        match ← m.dispatch C frame with
        | (some event, m') => return ([(frame, m.view)], some event, m')
        | (none, m') =>
          let m' ← m'.rxCompact
          let (calls, result) ← nextLoop fuel m'
          return ((frame, m.view) :: calls, result)

def next (m : Memory N FRAME) : Option (List (Call N FRAME) × Option Event × Memory N FRAME) := do
  let m ← m.ensureStarted C
  let m ← m.rxCompact
  m.nextLoop C I (m.rxLen + 1)

def takeAll : ℕ → Memory N FRAME → Option (List (Call N FRAME) × Memory N FRAME)
  | 0, _ => none
  | fuel + 1, m => do
    match ← m.next C I with
    | (calls, none, m) => return (calls, m)
    | (calls, some _, m) =>
      let (more, m) ← takeAll fuel m
      return (calls ++ more, m)

/-- It has no result when a round accepts nothing of the bytes it is given. -/
def serve : ℕ → Memory N FRAME → Bytes → Option (List (Call N FRAME) × Memory N FRAME)
  | 0, _, _ => none
  | fuel + 1, m, bytes => do
    let (accepted, m) ← m.feed C bytes
    let (calls, m) ← m.takeAll C I (m.rxLen + 1)
    let rest ← slice bytes accepted bytes.length
    if rest = [] then return (calls, m)
    else if accepted = 0 then none
    else
      let (more, m) ← serve fuel m rest
      return (calls ++ more, m)

def deliver (m : Memory N FRAME) : List Bytes → Option (List (Call N FRAME) × Memory N FRAME)
  | [] => some ([], m)
  | chunk :: chunks => do
    let (calls, m) ← m.serve C I (chunk.length + 1) chunk
    let (more, m) ← m.deliver chunks
    return (calls ++ more, m)

end Memory

section Ranges

variable {C : Codec} {l : Link N FRAME} {frame : Bytes} {ranges : List Range} {size : ℕ}

lemma drop_eq_pair {n : ℕ} (h : n + 2 = frame.length) :
    ∃ low high, frame[n]? = some low ∧ frame[n + 1]? = some high ∧ frame.drop n = [low, high] := by
  refine ⟨frame.get ⟨n, by omega⟩, frame.get ⟨n + 1, by omega⟩, getElem?_eq_getElem _, getElem?_eq_getElem _, ?_⟩
  rw [drop_eq_getElem_cons (by omega), drop_eq_getElem_cons (by omega), drop_eq_nil_of_le (by omega)]
  rfl

lemma header_fields (h : HEADER ≤ frame.length) : ∃ code h₀ h₁ h₂ h₃ seq, frame[3]? = some code ∧
    frame[4]? = some h₀ ∧ frame[5]? = some h₁ ∧ frame[6]? = some h₂ ∧ frame[7]? = some h₃ ∧ frame[8]? = some seq ∧
    frame.getD 3 0 = code ∧ frame.getD 8 0 = seq ∧ (frame.drop 4).take 4 = [h₀, h₁, h₂, h₃] := by
  match frame, h with
  | _ :: _ :: _ :: code :: h₀ :: h₁ :: h₂ :: h₃ :: seq :: _, _ =>
    exact ⟨code, h₀, h₁, h₂, h₃, seq, rfl, rfl, rfl, rfl, rfl, rfl, rfl, rfl, rfl⟩

lemma parseAt_eq (C : Codec) (frame : Bytes) : parseAt C frame = some (parse C frame) := by
  unfold parseAt parse
  by_cases hs : frame.length < OVERHEAD
  · rw [if_pos hs, if_pos hs]
  have hl : HEADER + TRAILER ≤ frame.length := Nat.not_lt.mp hs
  obtain ⟨low, high, hlow, hhi, hcrc⟩ :=
    @drop_eq_pair frame (frame.length - TRAILER) (by simp only [TRAILER] at hl ⊢; omega)
  obtain ⟨code, h₀, h₁, h₂, h₃, seq, hc, hh₀, hh₁, hh₂, hh₃, hseq, hc', hs', hh⟩ :=
    @header_fields frame (by omega)
  rw [if_neg hs, if_neg hs, less_of_le (by omega)]
  have hm : slice frame 0 3 = some (frame.take 3) := slice_front (by simp only [HEADER] at hl; omega)
  simp only [bind_eq_bind, bind_some, hlow, hhi, hcrc, slice_front (Nat.sub_le frame.length TRAILER),
    hm, hc, hc']
  split_ifs
  · rfl
  · rfl
  cases Kind.fromU8 code with
  | none => rfl
  | some kind =>
    simp only [hh₀, hh₁, hh₂, hh₃, hseq, hs', hh, bind_some,
      slice_of_le (show HEADER ≤ frame.length - TRAILER by omega) (Nat.sub_le frame.length TRAILER)]
    rfl

def AllWithin (ranges : List Range) : Prop := ∀ r ∈ ranges, r.Within

lemma allWithin_append {ranges' : List Range} (h : AllWithin ranges) (h' : AllWithin ranges') :
    AllWithin (ranges ++ ranges') := by
  intro r hr
  rcases mem_append.mp hr with hr | hr
  · exact h r hr
  · exact h' r hr

lemma allWithin_cons {r : Range} (hr : r.lo ≤ r.hi) (hr' : r.hi ≤ r.size) (h : AllWithin ranges) :
    AllWithin (r :: ranges) := by
  intro r' hm
  rcases mem_cons.mp hm with rfl | hm
  · exact ⟨hr, hr'⟩
  · exact h r' hm

lemma allWithin_nil : AllWithin [] := nofun

lemma sealRanges_within (FRAME len : ℕ) : AllWithin (sealRanges FRAME len) := by
  unfold sealRanges
  split_ifs with h
  · exact allWithin_nil
  have hl : 11 + len ≤ FRAME := Nat.not_lt.mp h
  repeat' apply allWithin_cons
  all_goals first | exact allWithin_nil | (simp only [HEADER, OVERHEAD, TRAILER]; omega)

lemma emitRanges_within (hC : C.Lawful) (htx : l.tx.length ≤ l.txCap) (kind : Kind) (hash : UInt32) (seq : UInt8)
    (payload : Bytes) : AllWithin (emitRanges C l kind hash seq payload) := by
  unfold emitRanges
  apply allWithin_append (sealRanges_within _ _)
  cases hs : sealFrame C FRAME ⟨kind, hash, seq⟩ payload with
  | error e => exact allWithin_nil
  | ok raw =>
    apply allWithin_cons htx le_rfl
    split_ifs with hr
    · exact allWithin_nil
    have hne : raw ≠ [] := by
      rintro rfl
      have hl := seal_length hs
      simp only [length_nil, OVERHEAD, HEADER] at hl
      omega
    have hl := hC.encode_length raw hne
    have hroom' : C.maxEncodingLength raw.length + 1 ≤ l.txCap - l.tx.length := Nat.not_lt.mp hr
    have hraw : raw.length ≤ FRAME := by
      rw [seal_length hs]
      exact (seal_ok.mp hs).1
    refine allWithin_cons (Nat.zero_le _) hraw
      (allWithin_cons (Nat.zero_le _) ?_ (allWithin_cons (Nat.le_succ _) ?_ allWithin_nil))
    · dsimp only
      omega
    · dsimp only
      omega

section

variable (hC : C.Lawful) (hfr : OVERHEAD ≤ FRAME) (htx : l.tx.length ≤ l.txCap)

include hC hfr htx

lemma helloRanges_within (ack : Bool) : AllWithin (helloRanges C l ack) := by
  have hl : HEADER + TRAILER ≤ FRAME := hfr
  unfold helloRanges
  apply allWithin_append
  · refine allWithin_cons ?_ le_rfl (allWithin_cons ?_ (Nat.sub_le _ _) allWithin_nil)
    · dsimp only
      omega
    · dsimp only
      omega
  cases hw : helloWrite (FRAME - TRAILER - HEADER) ack l.bridge l.id l.localEntries with
  | error e => exact allWithin_nil
  | ok payload =>
    obtain ⟨-, -, -, hlen, -⟩ := helloWrite_ok.mp hw
    refine allWithin_cons (Nat.le_add_right _ _) ?_ ?_
    · dsimp only
      omega
    cases helloParse payload with
    | error e => exact allWithin_nil
    | ok hello => exact emitRanges_within hC htx _ _ _ _

lemma startRanges_within : AllWithin (startRanges C l) := by
  unfold startRanges
  split_ifs
  · exact allWithin_nil
  · exact @helloRanges_within N FRAME C { l with started := true } hC hfr htx false

lemma errorRanges_within (hash : UInt32) (seq : UInt8) (message : Bytes) :
    AllWithin (errorRanges C l hash seq message) := by
  have hl : HEADER + TRAILER ≤ FRAME := hfr
  refine allWithin_append ?_ (emitRanges_within hC htx _ _ _ _)
  refine allWithin_cons (Nat.le_add_right _ _) ?_ (allWithin_cons (Nat.zero_le _) (min_le_left _ _) allWithin_nil)
  simp only [OVERHEAD]
  omega

end

lemma compareRanges_within (payload : Bytes) : AllWithin (compareRanges l payload) := by
  unfold compareRanges
  split_ifs with h
  · obtain ⟨hp, hf, -, hs⟩ := h
    have hne : 0 < payload.length := by
      apply length_pos_iff.mpr
      rintro rfl
      revert hp
      decide
    refine allWithin_cons (Nat.zero_le _) ?_ (allWithin_cons (Nat.zero_le _) ?_ (allWithin_cons ?_ ?_
      (allWithin_cons ?_ le_rfl allWithin_nil)))
    all_goals
      dsimp only
      omega
  · exact allWithin_nil

lemma onHelloRanges_within (hC : C.Lawful) (hfr : OVERHEAD ≤ FRAME) (htx : l.tx.length ≤ l.txCap)
    {frame : Frame} (hsz : HEADER + frame.len ≤ size) : AllWithin (onHelloRanges C l size frame) := by
  unfold onHelloRanges
  apply allWithin_append (allWithin_cons (Nat.le_add_right _ _) hsz (compareRanges_within _))
  cases hv : l.validateHello (l.rxPayload frame.len) with
  | error e => exact allWithin_nil
  | ok contract =>
    obtain ⟨-, -, hf, -⟩ := validateHello_ok.mp hv
    apply allWithin_cons (Nat.zero_le _) hf
    split_ifs
    · exact allWithin_nil
    · exact @helloRanges_within N FRAME C (l.withTables (l.adopt (l.rxPayload frame.len) contract)) hC hfr htx true

lemma dispatchRanges_within (hC : C.Lawful) (hfr : OVERHEAD ≤ FRAME) (htx : l.tx.length ≤ l.txCap)
    {frame : Frame} (hsz : HEADER + frame.len ≤ size) : AllWithin (dispatchRanges C l size frame) := by
  unfold dispatchRanges
  cases frame.kind with
  | hello => exact onHelloRanges_within hC hfr htx hsz
  | request =>
    dsimp only [onRequestRanges]
    split_ifs
    · exact @errorRanges_within N FRAME C l.dropUnwanted hC hfr htx _ _ _
    · exact allWithin_nil
    · exact @errorRanges_within N FRAME C l.dropUnwanted hC hfr htx _ _ _
  | ping | data | reply | error => exact allWithin_nil

end Ranges

section Simulation

variable {C : Codec} {m : Memory N FRAME} {l : Link N FRAME}

structure Represents (m : Memory N FRAME) (l : Link N FRAME) : Prop where
  view : m.view = l
  fits : m.rxLen ≤ m.rx.length

lemma Represents.rx (h : Represents m l) : m.rx.take m.rxLen = l.rx := by
  rw [← h.view]
  rfl

lemma Represents.length (h : Represents m l) : m.rxLen = l.rx.length := by
  rw [← h.rx, length_take]
  exact (min_eq_left h.fits).symm

lemma Represents.cap (h : Represents m l) : m.rx.length = l.rxCap := by
  rw [← h.view]
  rfl

lemma Represents.within (h : Represents m l) {ranges : List Range} (hr : AllWithin ranges) {l' : Link N FRAME}
    (hrx : l'.rx = l.rx) (hc : l'.rxCap = l.rxCap) : ∃ m', m.within ranges l' = some m' ∧ Represents m' l' := by
  refine ⟨{ m with link := l' }, if_pos hr, ?_, h.fits⟩
  rw [← h.rx] at hrx
  rw [← h.cap] at hc
  simp only [Memory.view, ← hrx, ← hc]

lemma Represents.ensureStarted (hC : C.Lawful) (hfr : OVERHEAD ≤ FRAME) (h : Represents m l)
    (htx : l.tx.length ≤ l.txCap) : ∃ m', m.ensureStarted C = some m' ∧ Represents m' (l.ensureStarted C) := by
  have hp := @ensureStarted_rxPart N FRAME C l
  rw [Memory.ensureStarted, h.view]
  exact h.within (startRanges_within hC hfr htx) (congrArg RxPart.rx hp) (congrArg RxPart.cap hp)

section

variable (h : Represents m l)

include h

lemma Represents.rxDiscard {n : ℕ} (hn : n ≤ l.rx.length) :
    ∃ m', m.rxDiscard n = some m' ∧ Represents m' (l.rxDiscard n) := by
  rw [← h.length] at hn
  obtain ⟨rx, hc, hsz, ht⟩ := copyWithin_front hn h.fits
  refine ⟨⟨rx, m.rxLen - n, { m.link with rxGeneration := m.link.rxGeneration + 1 }⟩, ?_, ?_, ?_⟩
  · simp only [Memory.rxDiscard, hc, less_of_le hn, Option.bind_eq_bind, Option.bind_some, Option.pure_def]
  · rw [← h.view]
    simp only [Memory.view, Link.rxDiscard, ht, hsz]
  · have := h.fits
    dsimp only
    omega

lemma Represents.rxCompact (hu : l.rxConsumed ≤ l.rx.length) :
    ∃ m', m.rxCompact = some m' ∧ Represents m' l.rxCompact := by
  have hl : m.link.rxConsumed = l.rxConsumed := by
    rw [← h.view]
    rfl
  rw [Memory.rxCompact, Link.rxCompact, hl]
  split_ifs
  · apply @Represents.rxDiscard N FRAME { m with link := { m.link with rxConsumed := 0 } }
      { l with rxConsumed := 0 }
    · refine ⟨?_, h.fits⟩
      rw [← h.view]
      rfl
    · exact hu
  · exact ⟨m, rfl, h⟩

lemma Represents.resume :
    @Represents N FRAME { m with link := { m.link with rxSkip := false } } { l with rxSkip := false } := by
  refine ⟨?_, h.fits⟩
  rw [← h.view]
  rfl

lemma Represents.overflow :
    @Represents N FRAME { m with rxLen := 0, link := { m.link.countRxOverflow with rxSkip := true } }
      { l.countRxOverflow with rx := [], rxSkip := true } := by
  refine ⟨?_, Nat.zero_le _⟩
  rw [← h.view]
  rfl

lemma Represents.append {bytes : Bytes} (hr : l.rx.length + bytes.length ≤ l.rxCap) :
    ∃ rx, overwrite m.rx l.rx.length (l.rx.length + bytes.length) bytes = some rx ∧
      @Represents N FRAME { m with rx, rxLen := l.rx.length + bytes.length } { l with rx := l.rx ++ bytes } := by
  rw [← h.cap] at hr
  obtain ⟨rx, hw, hsz, ht⟩ := overwrite_behind hr
  rw [← h.length, h.rx, h.length] at ht
  refine ⟨rx, hw, ?_, ?_⟩
  · simp only [Memory.view, ht, hsz]
    rw [← h.view]
    rfl
  · dsimp only
    rwa [hsz]

end

variable {rest chunk : Bytes} {frame : Frame}

lemma Represents.feedLoop (fuel : ℕ) (h : Represents m l)
    (hfu : 2 * rest.length + (if l.rxSkip then 0 else 1) ≤ fuel) (hp : 0 < fuel) :
    ∃ m', m.feedLoop fuel rest = some (m', (Link.feedLoop fuel l rest).2) ∧
      Represents m' (Link.feedLoop fuel l rest).1 := by
  induction fuel generalizing m l rest with
  | zero => omega
  | succ fuel ih =>
    have hl : m.link.rxSkip = l.rxSkip := by
      rw [← h.view]
      rfl
    unfold Memory.feedLoop Link.feedLoop
    by_cases hr : rest = []
    · rw [if_pos hr, if_pos hr]
      exact ⟨m, rfl, h⟩
    have hbs := length_pos_iff.mpr hr
    rw [if_neg hr, if_neg hr, hl]
    by_cases hs : l.rxSkip = true
    · rw [if_pos hs, if_pos hs]
      rw [hs, if_pos rfl] at hfu
      rcases Delimited.dropWhile_cases DELIMITER rest with ⟨hno, hd⟩ | ⟨chunk, after, hch, rfl, hd⟩
      · rw [hd, Delimited.find_none hno]
        exact ⟨m, rfl, h⟩
      · rw [hd, Delimited.find_chunk hch]
        simp only [length_append, length_cons] at hfu hbs
        simp only [slice_back (show chunk.length + 1 ≤ (chunk ++ DELIMITER :: after).length by simp),
          Delimited.drop_chunk, bind_eq_bind, bind_some]
        refine ih h.resume ?_ (by omega)
        rw [if_neg (by simp)]
        omega
    · rw [if_neg hs, if_neg hs]
      rw [if_neg hs] at hfu
      have hf : less m.rx.length m.rxLen = some (l.rxCap - l.rx.length) := by
        rw [less_of_le h.fits, h.length, h.cap]
      have hu : slice m.rx 0 m.rxLen = some l.rx := by rw [slice_front h.fits, h.rx]
      simp only [hf, hu, bind_eq_bind, bind_some]
      rw [h.length]
      by_cases hfull : l.rxCap - l.rx.length = 0
      · rw [if_pos hfull, if_pos hfull]
        by_cases hh : DELIMITER ∈ l.rx
        · rw [if_pos hh, if_pos hh]
          exact ⟨m, rfl, h⟩
        · rw [if_neg hh, if_neg hh]
          refine ih h.overflow ?_ (by omega)
          change 2 * rest.length + 0 ≤ fuel
          omega
      · rw [if_neg hfull, if_neg hfull]
        set n := min (l.rxCap - l.rx.length) rest.length with hn
        have hlen : (rest.take n).length = n := by
          rw [length_take]
          omega
        obtain ⟨rx, hw, hrep⟩ := h.append (show l.rx.length + (rest.take n).length ≤ l.rxCap by omega)
        rw [hlen] at hw hrep
        simp only [slice_front (show n ≤ rest.length by omega), slice_back (show n ≤ rest.length by omega), hw,
          bind_some]
        refine ih hrep ?_ (by omega)
        rw [length_drop]
        dsimp only
        rw [if_neg hs]
        omega

lemma Represents.feed (hC : C.Lawful) (hfr : OVERHEAD ≤ FRAME) (h : Represents m l) (hb : Buffered l)
    (bytes : Bytes) :
    ∃ m', m.feed C bytes = some ((l.feed C bytes).1, m') ∧ Represents m' (l.feed C bytes).2 := by
  have hb' := ensureStarted_buffered hC hb
  obtain ⟨m₁, hst, h₁⟩ := h.ensureStarted hC hfr hb.2.2
  obtain ⟨m₂, hc, h₂⟩ := h₁.rxCompact hb'.1
  obtain ⟨m₃, hl, h₃⟩ := @Represents.feedLoop N FRAME m₂ _ bytes (2 * bytes.length + 1) h₂ (by split_ifs <;> omega)
    (by omega)
  have hle := (@feedLoop_suffix N FRAME (l.ensureStarted C).rxCompact (2 * bytes.length + 1) bytes).length_le
  refine ⟨m₃, ?_, h₃⟩
  simp only [Memory.feed, hst, hc, hl, less_of_le hle, Option.bind_eq_bind, Option.bind_some, Option.pure_def]
  rfl

lemma Represents.decodeFrame (hC : C.Lawful) (I : InPlace C) (h : Represents m l)
    (hrx : l.rx = chunk ++ DELIMITER :: rest) :
    ∃ m', m.decodeFrame C I chunk.length = some ((l.decodeFrame C chunk.length).map Prod.fst, m') ∧
      Represents m' { l with rx := I.leaves chunk ++ DELIMITER :: rest } := by
  have hlen : chunk.length ≤ m.rxLen := by
    rw [h.length, hrx, length_append]
    exact Nat.le_add_right _ _
  have hch : m.rx.take chunk.length = chunk :=
    calc m.rx.take chunk.length = (m.rx.take m.rxLen).take chunk.length := by rw [take_take, min_eq_left hlen]
      _ = chunk := by rw [h.rx, hrx, take_left' rfl]
  have hsl : slice m.rx 0 chunk.length = some chunk := by rw [slice_front (hlen.trans h.fits), hch]
  have hw : overwrite m.rx 0 chunk.length (I.leaves chunk) = some (I.leaves chunk ++ m.rx.drop chunk.length) := by
    have := @overwrite_of_le _ m.rx (I.leaves chunk) 0 (by rw [I.size, Nat.zero_add]; exact hlen.trans h.fits)
    rwa [Nat.zero_add, I.size, take_zero, nil_append] at this
  set after : Memory N FRAME := { m with rx := I.leaves chunk ++ m.rx.drop chunk.length } with ha
  have hr : Represents after { l with rx := I.leaves chunk ++ DELIMITER :: rest } := by
    have hsz : after.rx.length = m.rx.length := by
      simp only [ha, length_append, I.size, length_drop]
      have := hlen.trans h.fits
      omega
    have ht : after.rx.take after.rxLen = I.leaves chunk ++ DELIMITER :: rest := by
      have hb : (m.rx.take m.rxLen).drop chunk.length = DELIMITER :: rest := by
        rw [h.rx, hrx, drop_left' rfl]
      rw [← hb, drop_take]
      simp only [ha]
      rw [take_append, I.size, take_of_length_le (by rw [I.size]; exact hlen)]
    refine ⟨?_, by rw [hsz]; exact h.fits⟩
    simp only [Memory.view, ht, hsz]
    rw [← h.view]
    rfl
  refine ⟨after, ?_, hr⟩
  rw [decodeFrame_eq hrx]
  simp only [Memory.decodeFrame, hsl, hw, bind_eq_bind, bind_some]
  cases hd : C.cobsDecode chunk with
  | none => rfl
  | some raw =>
    have hraw : slice (I.leaves chunk ++ m.rx.drop chunk.length) 0 raw.length = some raw := by
      have hle := hC.decode_length chunk raw hd
      rw [slice_front (by rw [length_append, I.size]; omega), I.decoded chunk raw hd, append_assoc,
        take_left' rfl]
    by_cases hl : raw.length ≤ FRAME
    · simp only [not_lt.mpr hl, if_false, hl, if_true, bind_some, hraw, parseAt_eq]
      cases parse C raw with
      | error e => rfl
      | ok f =>
        by_cases hs : f.2.length ≤ 65535
        · simp [Except.toOption, Option.filter, short, hs, ha]
        · simp [Except.toOption, Option.filter, short, hs, ha]
    · simp [Nat.lt_of_not_le hl, hl, ha]

lemma Represents.dispatch (hC : C.Lawful) (hfr : OVERHEAD ≤ FRAME) (h : Represents m l)
    (htx : l.tx.length ≤ l.txCap) (hsz : HEADER + frame.len ≤ l.rxCap) :
    ∃ m', m.dispatch C frame = some ((l.dispatch C frame).1, m') ∧ Represents m' (l.dispatch C frame).2 := by
  have hp := @dispatch_rxPart N FRAME C (frame, l)
  have hrx : (l.dispatch C frame).2.rx = l.rx := (congrArg RxPart.rx hp).trans (RxPart.countBad_same _ _).2.2
  obtain ⟨m', hw, hr⟩ := h.within (dispatchRanges_within hC hfr htx hsz) hrx
    ((congrArg RxPart.cap hp).trans (RxPart.countBad_same _ _).1)
  refine ⟨m', ?_, hr⟩
  simp only [Memory.dispatch, h.view, h.cap, hw, Option.bind_eq_bind, Option.bind_some, Option.pure_def]

lemma nextLoop_none (fuel : ℕ) (h : Represents m l) (hn : DELIMITER ∉ l.rx) :
    m.nextLoop C I (fuel + 1) = some ([], none, m) := by
  have hu : slice m.rx 0 m.rxLen = some l.rx := by rw [slice_front h.fits, h.rx]
  simp only [Memory.nextLoop, hu, Option.bind_eq_bind, Option.bind_some,
    Delimited.find_none hn, Option.pure_def]

lemma nextLoop_found (fuel : ℕ) (h : Represents m l) (hw : DELIMITER ∉ chunk)
    (hrx : l.rx = chunk ++ DELIMITER :: rest) : m.nextLoop C I (fuel + 1) =
      if chunk = [] then (m.rxDiscard 1).bind (Memory.nextLoop C I fuel)
      else (m.decodeFrame C I chunk.length).bind fun
        | (none, m) =>
          (Memory.rxDiscard { m with link := m.link.badFrame } (chunk.length + 1)).bind (Memory.nextLoop C I fuel)
        | (some frame, m) =>
          let generation := m.link.rxGeneration + 1
          let m := { m with link := { m.link with
            rxConsumed := chunk.length + 1, rxGeneration := generation, lastRxMs := m.link.nowMs } }
          let frame := { frame with generation }
          (m.dispatch C frame).bind fun
            | (some event, m') => some ([(frame, m.view)], some event, m')
            | (none, m') => m'.rxCompact.bind fun m' => (m'.nextLoop C I fuel).bind fun (calls, result) =>
              some ((frame, m.view) :: calls, result) := by
  have hu : slice m.rx 0 m.rxLen = some l.rx := by rw [slice_front h.fits, h.rx]
  have hf : l.rx.findIdx? (· == DELIMITER) = some chunk.length := by
    rw [hrx, Delimited.find_chunk hw]
  simp only [Memory.nextLoop, hu, bind_eq_bind, bind_some, hf]
  cases chunk with
  | nil => rfl
  | cons b chunk => rfl

lemma Represents.discardBroken (I : InPlace C) (hrx : l.rx = chunk ++ DELIMITER :: rest)
    (h : Represents m { l with rx := I.leaves chunk ++ DELIMITER :: rest }) :
    ∃ m', Memory.rxDiscard { m with link := m.link.badFrame } (chunk.length + 1) = some m' ∧
      Represents m' (l.badFrame.rxDiscard (chunk.length + 1)) := by
  set left : Link N FRAME := { l with rx := I.leaves chunk ++ DELIMITER :: rest } with hle
  have hb : Represents { m with link := m.link.badFrame } left.badFrame := by
    refine ⟨?_, h.fits⟩
    rw [← h.view]
    rfl
  have hsz : chunk.length + 1 ≤ left.badFrame.rx.length := by
    simp only [hle, badFrame, length_append, I.size, length_cons]
    omega
  obtain ⟨m', hd, hr⟩ := hb.rxDiscard hsz
  refine ⟨m', hd, ?_⟩
  have hs : left.badFrame.rxDiscard (chunk.length + 1) = l.badFrame.rxDiscard (chunk.length + 1) := by
    have hdr : (I.leaves chunk ++ DELIMITER :: rest).drop (chunk.length + 1) = l.rx.drop (chunk.length + 1) := by
      have hl := Delimited.drop_chunk (I.leaves chunk) rest DELIMITER
      rw [I.size] at hl
      rw [hl, hrx, Delimited.drop_chunk]
    simp only [hle, badFrame, Link.rxDiscard, hdr]
  rwa [hs] at hr

lemma decodeFrame_fits (hC : C.Lawful) (I : InPlace C) (hrx : l.rx = chunk ++ DELIMITER :: rest) {rx : Bytes}
    (h : l.decodeFrame C chunk.length = some (frame, rx)) :
    rx = I.leaves chunk ++ DELIMITER :: rest ∧ HEADER + frame.len ≤ chunk.length := by
  obtain ⟨f, raw, hf, hraw, rfl, rfl, -⟩ := decodeFrame_some hrx h
  have hle := hC.decode_length chunk raw hraw
  have hp : parse C raw = .ok f := by
    have hr := (filter_eq_some_iff.mp hf).1
    simp only [segmentFrame, hraw, bind_eq_bind, bind_some] at hr
    split_ifs at hr
    exact toOption_some.mp hr
  obtain ⟨hl, hpay⟩ := parse_payload hp
  constructor
  · rw [I.decoded chunk raw hraw, hrx, drop_append_of_le_length hle, append_assoc]
  · have hlen := congrArg List.length hpay
    rw [length_take, length_drop] at hlen
    simp only [OVERHEAD] at hl hlen
    dsimp only
    omega

lemma Represents.receive {rx : Bytes} (h : Represents m { l with rx }) (frame : Frame) (consumed : ℕ) :
    m.link.rxGeneration = l.rxGeneration ∧ Represents ({ m with link := { m.link with
      rxConsumed := consumed, rxGeneration := m.link.rxGeneration + 1, lastRxMs := m.link.nowMs } })
      (l.received frame rx consumed).2 := by
  have hg := congrArg (fun v : Link N FRAME => v.rxGeneration) h.view
  refine ⟨hg, ?_, h.fits⟩
  exact congrArg (fun v : Link N FRAME =>
    { v with rxConsumed := consumed, rxGeneration := v.rxGeneration + 1, lastRxMs := v.nowMs }) h.view

variable (hC : C.Lawful) (I : InPlace C) (hfr : OVERHEAD ≤ FRAME)

include hC I hfr

lemma Represents.receiveFrame (h : Represents m l) (hb : Buffered l) {rx : Bytes}
    (hrx : l.rx = chunk ++ DELIMITER :: rest) (hd : l.decodeFrame C chunk.length = some (frame, rx)) :
    ∃ m₁ m₂, m.decodeFrame C I chunk.length = some (some frame, m₁) ∧ m₁.link.rxGeneration = l.rxGeneration ∧
      let after : Memory N FRAME := { m₁ with link := { m₁.link with
        rxConsumed := chunk.length + 1, rxGeneration := l.rxGeneration + 1, lastRxMs := m₁.link.nowMs } }
      let call := l.received frame rx (chunk.length + 1)
      after.view = call.2 ∧ after.dispatch C call.1 = some ((call.2.dispatch C call.1).1, m₂) ∧
        Represents m₂ (call.2.dispatch C call.1).2 ∧
        (call.2.dispatch C call.1).2.rxConsumed ≤ (call.2.dispatch C call.1).2.rx.length := by
  obtain ⟨m₁, hdec, h₁⟩ := h.decodeFrame hC I hrx
  obtain ⟨rfl, hf⟩ := decodeFrame_fits hC I hrx hd
  obtain ⟨hg, h₂⟩ := h₁.receive frame (chunk.length + 1)
  have hsz : chunk.length + 1 ≤ l.rx.length := by
    rw [hrx, length_append, length_cons]
    omega
  have hc : HEADER + frame.len ≤ l.rxCap := (hf.trans (Nat.le_succ _)).trans (hsz.trans hb.2.1)
  rw [hd, map_some] at hdec
  rw [hg] at h₂
  obtain ⟨m₂, hdi, h₃⟩ := @Represents.dispatch N FRAME C _ _
    (l.received frame (I.leaves chunk ++ DELIMITER :: rest) (chunk.length + 1)).1 hC hfr h₂ hb.2.2 hc
  refine ⟨m₁, m₂, hdec, hg, h₂.view, hdi, h₃, ?_⟩
  have hr := @dispatch_reaction N FRAME C
    (l.received frame (I.leaves chunk ++ DELIMITER :: rest) (chunk.length + 1)).2
    (l.received frame (I.leaves chunk ++ DELIMITER :: rest) (chunk.length + 1)).1
  rw [hr.rx, hr.consumed]
  refine hsz.trans_eq ?_
  change l.rx.length = (I.leaves chunk ++ DELIMITER :: rest).length
  rw [hrx, length_append, length_append, I.size]

lemma Represents.nextLoop (fuel : ℕ) (h : Represents m l) (hb : Buffered l) (hu : l.rxConsumed = 0)
    (hf : l.rx.length < fuel) :
    ∃ m', m.nextLoop C I fuel = some (loopCalls C fuel l, (Link.nextLoop C fuel l).1, m') ∧
      Represents m' (Link.nextLoop C fuel l).2 := by
  induction fuel generalizing m l with
  | zero => omega
  | succ fuel ih =>
    by_cases hm : DELIMITER ∈ l.rx
    · obtain ⟨chunk, rest, hrx, hw⟩ := eq_append_cons_of_mem hm
      have hsz : chunk.length + 1 ≤ l.rx.length := by
        rw [hrx, length_append, length_cons]
        omega
      rw [nextLoop_found fuel h hw hrx]
      -- the rest of the loop after a round that returned no event
      have ha : ∀ {l' : Link N FRAME} {m' : Memory N FRAME}, l.nextRound C = some (none, l') → Represents m' l' →
          ∃ m'', m'.nextLoop C I fuel = some (loopCalls C fuel l', (Link.nextLoop C fuel l').1, m'') ∧
            Represents m'' (Link.nextLoop C fuel l').2 := by
        intro l' m' hrd hrep
        obtain ⟨hb', hz⟩ := nextRound_buffered hC hb hu hrd
        obtain ⟨⟨_, _, hr⟩, -⟩ := nextRound_round hC hu hrd
        have hl := hr.left
        rw [hz rfl, drop_zero] at hl
        have hle : l'.rx.length < l.rx.length := by
          rw [hl, hr.taken, length_append, length_cons]
          omega
        exact ih hrep hb' (hz rfl) (by omega)
      rcases @nextRound_found N FRAME C l chunk rest hw hrx with ⟨rfl, hc, hrd⟩ |
        ⟨hne, hde, hc, hrd⟩ | ⟨hne, frame, rx, hde, hc, hrd⟩
      · obtain ⟨m₁, hd, h₁⟩ := h.rxDiscard (by simpa using hsz)
        obtain ⟨m', hlo, hrep⟩ := ha hrd h₁
        simp only [if_true, hd, bind_some, Link.nextLoop, loopCalls, hrd, hc]
        exact ⟨m', hlo, hrep⟩
      · obtain ⟨m₁, hdec, h₁⟩ := h.decodeFrame hC I hrx
        obtain ⟨m₂, hd, h₂⟩ := h₁.discardBroken I hrx
        obtain ⟨m', hlo, hrep⟩ := ha hrd h₂
        rw [hde] at hdec
        simp only [if_neg hne, hdec, map_none, bind_some, hd, Link.nextLoop, loopCalls, hrd, hc]
        exact ⟨m', hlo, hrep⟩
      · obtain ⟨m₁, m₂, hdec, hg, hv, hdi, h₂, hh⟩ := h.receiveFrame hC I hfr hb hrx hde
        simp only [if_neg hne, hdec, bind_some, Link.nextLoop, loopCalls, hrd, hc, toList_some,
          hg, hv]
        rw [show ({ frame with generation := l.rxGeneration + 1 } : Frame) =
          (l.received frame rx (chunk.length + 1)).1
          from rfl]
        simp only [hdi, bind_some]
        generalize l.received frame rx (chunk.length + 1) = call at *
        generalize call.2.dispatch C call.1 = result at *
        obtain ⟨event, after⟩ := result
        cases event with
        | some event => exact ⟨m₂, rfl, h₂⟩
        | none =>
          obtain ⟨m₃, hco, h₃⟩ := h₂.rxCompact hh
          obtain ⟨m', hlo, hrep⟩ := ha hrd h₃
          simp only [hco, bind_some, hlo]
          exact ⟨m', rfl, hrep⟩
    · rw [nextLoop_none fuel h hm, Link.nextLoop, loopCalls, nextRound_none hm]
      exact ⟨m, rfl, h⟩

lemma Represents.next (h : Represents m l) (hb : Buffered l) :
    ∃ m', m.next C I = some (l.nextCalls C, (l.next C).1, m') ∧ Represents m' (l.next C).2 := by
  have hb' := ensureStarted_buffered hC hb
  obtain ⟨m₁, hst, h₁⟩ := h.ensureStarted hC hfr hb.2.2
  obtain ⟨m₂, hc, h₂⟩ := h₁.rxCompact hb'.1
  obtain ⟨hb₂, hz⟩ := rxCompact_buffered hb'
  obtain ⟨m', hl, hr⟩ := h₂.nextLoop hC I hfr _ hb₂ hz (Nat.lt_succ_self _)
  refine ⟨m', ?_, hr⟩
  simp only [Memory.next, hst, hc, bind_eq_bind, bind_some, h₂.length]
  exact hl

end Simulation

section Streams

variable {C : Codec} {base : Link N FRAME} {m : Memory N FRAME} {stream ahead : Bytes} {calls : List (Call N FRAME)}

structure Tracks (C : Codec) (base : Link N FRAME) (m : Memory N FRAME) (stream ahead : Bytes)
    (calls : List (Call N FRAME)) (l : Link N FRAME) : Prop where
  represents : Represents m l
  buffered : Buffered l
  reassembled : Reassembled C base l stream ahead calls

def Drained (l : Link N FRAME) : Prop := DELIMITER ∉ l.rx.drop l.rxConsumed

variable {l : Link N FRAME} {bytes : Bytes}

lemma Tracks.feed (hC : C.Lawful) (hfr : OVERHEAD ≤ FRAME) (h : Tracks C base m stream bytes calls l) :
    ∃ accepted m' l', m.feed C bytes = some (accepted, m') ∧ accepted ≤ bytes.length ∧
      Tracks C base m' (stream ++ bytes.take accepted) (bytes.drop accepted) calls l' ∧
      (bytes ≠ [] → Drained l → 0 < accepted) := by
  obtain ⟨m', hf, hrep⟩ := h.represents.feed hC hfr h.buffered bytes
  have hr := feed_reassembled h.reassembled
  exact ⟨_, m', _, hf, Nat.sub_le _ _, ⟨hrep, perform_buffered hC h.buffered (.feed bytes), hr⟩, feed_progress⟩

variable (hC : C.Lawful) (I : InPlace C) (hfr : OVERHEAD ≤ FRAME)

include hC I hfr

lemma Tracks.takeAll (fuel : ℕ) (h : Tracks C base m stream ahead calls l)
    (hf : (l.rx.drop l.rxConsumed).length < fuel) :
    ∃ more m' l', m.takeAll C I fuel = some (more, m') ∧ Tracks C base m' stream ahead (calls ++ more) l' ∧
      Drained l' := by
  induction fuel generalizing m l calls with
  | zero => omega
  | succ fuel ih =>
    obtain ⟨m₁, hn, hrep⟩ := h.represents.next hC I hfr h.buffered
    have hr := nextLoop_reassembled hC ((l.ensureStarted C).rxCompact.rx.length + 1) rxCompact_consumed
      h.reassembled.start
    obtain ⟨hd, hl⟩ := next_drains hC l
    have hb : Buffered (l.next C).2 := perform_buffered hC h.buffered .next
    have h₁ : Tracks C base m₁ stream ahead (calls ++ l.nextCalls C) (l.next C).2 := ⟨hrep, hb, hr⟩
    simp only [Memory.takeAll, hn, Option.bind_eq_bind, Option.bind_some]
    cases hev : (l.next C).1 with
    | none => exact ⟨_, m₁, _, rfl, h₁, hd hev⟩
    | some event =>
      have hs := hl (by rw [hev]; exact Option.some_ne_none event)
      obtain ⟨more, m', l', hre, h', hdr⟩ := ih h₁ (by omega)
      rw [append_assoc] at h'
      refine ⟨l.nextCalls C ++ more, m', l', ?_, h', hdr⟩
      simp only [hre, Option.bind_some, Option.pure_def]

lemma Tracks.serve (fuel : ℕ) (h : Tracks C base m stream bytes calls l) (hd : Drained l)
    (hf : bytes.length < fuel) :
    ∃ more m' l', m.serve C I fuel bytes = some (more, m') ∧
      Tracks C base m' (stream ++ bytes) [] (calls ++ more) l' ∧
      Drained l' := by
  induction fuel generalizing m l stream bytes calls with
  | zero => omega
  | succ fuel ih =>
    obtain ⟨accepted, m₁, l₁, hfe, hle, h₁, hp⟩ := h.feed hC hfr
    have hr : (l₁.rx.drop l₁.rxConsumed).length < m₁.rxLen + 1 := by
      rw [h₁.represents.length, length_drop]
      omega
    obtain ⟨first, m₂, l₂, ht, h₂, hd₂⟩ := h₁.takeAll hC I hfr _ hr
    simp only [Memory.serve, hfe, ht, slice_back hle, Option.bind_eq_bind, Option.bind_some]
    by_cases hre : bytes.drop accepted = []
    · have ha : bytes.take accepted = bytes := take_of_length_le (drop_eq_nil_iff.mp hre)
      rw [hre, ha] at h₂
      rw [if_pos hre]
      exact ⟨first, m₂, l₂, rfl, h₂, hd₂⟩
    · have hbs : bytes ≠ [] := by
        rintro rfl
        exact hre drop_nil
      have hpos := hp hbs hd
      obtain ⟨more, m', l', hs, h', hd'⟩ := ih h₂ hd₂ (by rw [length_drop]; omega)
      rw [append_assoc, append_assoc, take_append_drop] at h'
      refine ⟨first ++ more, m', l', ?_, h', hd'⟩
      simp only [if_neg hre, if_neg hpos.ne', hs, Option.bind_some, Option.pure_def]

lemma Tracks.deliver (chunks : List Bytes) (h : Tracks C base m stream [] calls l) (hd : Drained l) :
    ∃ more m' l', m.deliver C I chunks = some (more, m') ∧
      Tracks C base m' (stream ++ chunks.flatten) [] (calls ++ more) l' ∧ Drained l' := by
  induction chunks generalizing m l stream calls with
  | nil => exact ⟨[], m, l, rfl, by simpa using h, hd⟩
  | cons chunk chunks ih =>
    obtain ⟨first, m₁, l₁, hs, h₁, hd₁⟩ := @Tracks.serve N FRAME C base m stream calls l chunk hC I
      hfr (chunk.length + 1) ⟨h.represents, h.buffered, h.reassembled.announce⟩ hd (Nat.lt_succ_self _)
    obtain ⟨more, m', l', hde, h', hd'⟩ := ih h₁ hd₁
    rw [append_assoc, append_assoc] at h'
    refine ⟨first ++ more, m', l', ?_, ?_, hd'⟩
    · simp only [Memory.deliver, hs, hde, Option.bind_eq_bind, Option.bind_some, Option.pure_def]
    · rwa [flatten_cons]

end Streams

section Results

variable {C : Codec} {I : InPlace C} {m : Memory N FRAME} {chunks : List Bytes}

structure Idle (m : Memory N FRAME) : Prop where
  frame : OVERHEAD ≤ FRAME
  empty : m.rxLen = 0
  consumed : m.link.rxConsumed = 0
  whole : m.link.rxSkip = false
  tx : m.link.tx.length ≤ m.link.txCap

/-- The caller gets through every chunk, and the counters count what does not reach `dispatch`. -/
def Reassembles (C : Codec) (I : InPlace C) (m : Memory N FRAME) (chunks : List Bytes) : Prop :=
  ∃ calls m', m.deliver C I chunks = some (calls, m') ∧
    calls.map Call.frame = framesOf (segmentFrame C FRAME) (fitting DELIMITER m.rx.length chunks.flatten) ∧
    m'.link.stats.rxOverflow =
      m.link.stats.rxOverflow + UInt32.ofNat (oversized DELIMITER m.rx.length chunks.flatten) ∧
    m'.link.stats.badFrames = m.link.stats.badFrames +
      UInt32.ofNat (failures (segmentFrame C FRAME) (fitting DELIMITER m.rx.length chunks.flatten))

def ShortPayloads (C : Codec) (FRAME cap : ℕ) (stream : Bytes) : Prop :=
  ∀ f ∈ framesOf (segmentFrame C FRAME) (fitting DELIMITER cap stream), f.2.length ≤ 65535

-- A refused Hello counts as a bad frame, in a counter of thirty-two bits.
def Unrefused (C : Codec) (m : Memory N FRAME) (stream : Bytes) : Prop :=
  2 ^ 32 ∣ refusals m.link.toTables (framesOf (segmentFrame C FRAME) (fitting DELIMITER m.rx.length stream))

lemma framesOf_decoded (segments : List Bytes) :
    framesOf (decodedFrame C FRAME) segments = (framesOf (segmentFrame C FRAME) segments).filter short := by
  rw [framesOf, framesOf, filter_filterMap]
  rfl

lemma failures_decoded {segments : List Bytes}
    (h : ∀ f ∈ framesOf (segmentFrame C FRAME) segments, short f = true) :
    failures (decodedFrame C FRAME) segments = failures (segmentFrame C FRAME) segments := by
  unfold failures
  apply countP_congr
  intro segment hm
  cases hf : segmentFrame C FRAME segment with
  | none => simp [decodedFrame, hf]
  | some f =>
    have hs := h f (mem_filterMap.mpr ⟨segment, hm, hf⟩)
    simp [decodedFrame, hf, hs]

lemma deliver_decoded (hC : C.Lawful) (h : Idle m) (chunks : List Bytes) : ∃ calls m',
    m.deliver C I chunks = some (calls, m') ∧
      calls.map Call.frame = framesOf (decodedFrame C FRAME) (fitting DELIMITER m.rx.length chunks.flatten) ∧
      m'.link.stats.rxOverflow =
        m.link.stats.rxOverflow + UInt32.ofNat (oversized DELIMITER m.rx.length chunks.flatten) ∧
      m'.link.stats.badFrames = m.link.stats.badFrames +
        UInt32.ofNat (failures (decodedFrame C FRAME) (fitting DELIMITER m.rx.length chunks.flatten) + refusals
          m.link.toTables (framesOf (decodedFrame C FRAME) (fitting DELIMITER m.rx.length chunks.flatten))) := by
  have he : m.view.rx = [] := by
    change m.rx.take m.rxLen = []
    rw [h.empty, take_zero]
  have hf : m.rxLen ≤ m.rx.length := h.empty ▸ Nat.zero_le _
  have hb : Buffered m.view := by
    refine ⟨h.consumed.trans_le (Nat.zero_le _), ?_, h.tx⟩
    rw [he]
    exact Nat.zero_le _
  have hst : Tracks C m.view m [] [] [] m.view := ⟨⟨rfl, hf⟩, hb, reassembled_start he h.whole⟩
  have hdr : Drained m.view := by
    rw [Drained, he, drop_nil]
    exact not_mem_nil
  obtain ⟨calls, m', l', hde, ⟨hrep, -, hr⟩, hd⟩ := hst.deliver hC I h.frame chunks hdr
  obtain ⟨ha, dropped, hp, -, hfrs, ho, hbad, -⟩ := hr
  rw [nil_append] at hp hfrs
  obtain ⟨rfl, rfl⟩ := hp.drained hd
  have hs : m'.link.stats = l'.stats := by
    rw [← hrep.view]
    rfl
  refine ⟨calls, m', hde, hfrs, ?_, ?_⟩
  · rw [hs]
    exact ho
  · rw [hs]
    exact hbad

lemma counted_iff (bad : UInt32) (failed refused : ℕ) :
    bad + UInt32.ofNat (failed + refused) = bad + UInt32.ofNat failed ↔ 2 ^ 32 ∣ refused := by
  rw [UInt32.ofNat_add, ← UInt32.add_assoc, UInt32.add_eq_left, Nat.dvd_iff_mod_eq_zero, ← UInt32.toNat_inj,
    UInt32.toNat_ofNat]
  rfl

lemma reassembles_iff (hC : C.Lawful) (h : Idle m) : Reassembles C I m chunks ↔
    ShortPayloads C FRAME m.rx.length chunks.flatten ∧ Unrefused C m chunks.flatten := by
  obtain ⟨calls, m', hd, hfrs, ho, hb⟩ := @deliver_decoded N FRAME C I m hC h chunks
  rw [framesOf_decoded] at hfrs hb
  have hsh : ShortPayloads C FRAME m.rx.length chunks.flatten ↔ calls.map Call.frame =
      framesOf (segmentFrame C FRAME) (fitting DELIMITER m.rx.length chunks.flatten) := by
    rw [hfrs, filter_eq_self]
    exact forall₂_congr fun f _ => (decide_eq_true_iff).symm
  have hcount (hs : ShortPayloads C FRAME m.rx.length chunks.flatten) : m'.link.stats.badFrames =
      m.link.stats.badFrames + UInt32.ofNat (failures (segmentFrame C FRAME)
        (fitting DELIMITER m.rx.length chunks.flatten)) ↔ Unrefused C m chunks.flatten := by
    rw [hb, failures_decoded fun f hf => decide_eq_true (hs f hf), ← hfrs, hsh.mp hs]
    exact counted_iff _ _ _
  constructor
  · rintro ⟨calls', m'', hd', hf', -, hb'⟩
    rw [hd] at hd'
    cases hd'
    have hs := hsh.mpr hf'
    exact ⟨hs, (hcount hs).mp hb'⟩
  · rintro ⟨hs, hu⟩
    exact ⟨calls, m', hd, hsh.mp hs, ho, (hcount hs).mpr hu⟩

theorem stream_reassembly (hC : C.Lawful) (I : InPlace C) (h : Idle m) (chunks : List Bytes) :
    Reassembles C I m chunks ↔
      ShortPayloads C FRAME m.rx.length chunks.flatten ∧ Unrefused C m chunks.flatten := reassembles_iff hC h

variable {f : WireFrame}

lemma segmentFrame_wire (hC : C.Lawful) (hf : Fitting FRAME f) :
    segmentFrame C FRAME (C.cobsEncode (rawOf C f)) = some f := by
  have hl : (rawOf C f).length ≤ FRAME := by
    rw [rawOf_length]
    exact hf
  have hp : parse C (rawOf C f) = .ok f := parse_seal (seal_fitting hf)
  simp only [segmentFrame, hC.decode_encode _ rawOf_ne_nil, hl, if_true, hp, bind_eq_bind, bind_some]
  rfl

lemma framesOf_wire (hC : C.Lawful) (hf : Fitting FRAME f) {cap : ℕ} (hr : (wireBytes C f).length ≤ cap) :
    framesOf (segmentFrame C FRAME) (fitting DELIMITER cap (wireBytes C f)) = [f] := by
  have he : wireBytes C f = ended DELIMITER [C.cobsEncode (rawOf C f)] ++ [] := by simp [ended, wireBytes]
  have hsp : (wireBytes C f).splitOn DELIMITER = [C.cobsEncode (rawOf C f)] ++ [[]] := by
    rw [he]
    exact splitOn_ended (by simpa using hC.encode_nonzero (rawOf C f)) not_mem_nil
  rw [wireBytes_length_eq] at hr
  have hfi : fitting DELIMITER cap (wireBytes C f) = [C.cobsEncode (rawOf C f)] := by
    rw [fitting, completed, hsp, dropLast_concat, filter_singleton, decide_eq_true hr]
    rfl
  simp [hfi, framesOf, hC.encode_ne_nil _ rawOf_ne_nil, segmentFrame_wire hC hf]

lemma reassembles_wire (hC : C.Lawful) (h : Idle m) (hf : Fitting FRAME f)
    (hr : (wireBytes C f).length ≤ m.rx.length) : Reassembles C I m [wireBytes C f] ↔
      f.2.length ≤ 65535 ∧ 2 ^ 32 ∣ refusals m.link.toTables [f] := by
  rw [reassembles_iff hC h, ShortPayloads, Unrefused, flatten_cons, flatten_nil, append_nil, framesOf_wire hC hf hr,
    forall_mem_singleton]

end Results

def standardInPlace : InPlace standard where
  leaves bs :=
    match standard.cobsDecode bs with
    | some raw => raw ++ bs.drop raw.length
    | none => bs
  size := by
    intro bs
    cases h : standard.cobsDecode bs with
    | none => rfl
    | some raw =>
      have hle := standard_lawful.decode_length bs raw h
      simp only [List.length_append, List.length_drop]
      omega
  decoded := by
    intro bs raw h
    rw [h]

def hostMemory : Memory 2 64 := ⟨List.replicate 200 0, 0, host⟩

-- Two bytes of noise, an empty segment and a Hello.
def noisyGreeting : List Bytes := [[7, 7], [0, 0] ++ greeting.take 5, greeting.drop 5]

lemma host_idle : Idle hostMemory := ⟨by decide, rfl, by decide +kernel, by decide +kernel, by decide +kernel⟩

theorem stream_reassembly_greeting :
    (ShortPayloads standard 64 200 noisyGreeting.flatten ∧ Unrefused standard hostMemory noisyGreeting.flatten) ∧
      Reassembles standard standardInPlace hostMemory noisyGreeting := by
  have hs : ShortPayloads standard 64 200 noisyGreeting.flatten ∧
      Unrefused standard hostMemory noisyGreeting.flatten := by
    unfold ShortPayloads Unrefused
    decide +kernel
  exact ⟨hs, (stream_reassembly standard_lawful standardInPlace host_idle noisyGreeting).mpr hs⟩

def wideMemory : Memory 2 70000 := ⟨List.replicate 80000 0, 0, initial hostId [] 200 80000⟩

def longFrame : WireFrame := (⟨.data, 0, 0⟩, List.replicate 65536 0)

def emptyHello : WireFrame := (⟨.hello, 0, 0⟩, [])

theorem stream_reassembly_long : ¬ Reassembles standard standardInPlace wideMemory [wireBytes standard longFrame] ∧
    ¬ Reassembles standard standardInPlace hostMemory [wireBytes standard emptyHello] := by
  have hp : longFrame.2.length = 65536 := length_replicate
  have hf : Fitting 70000 longFrame := by
    unfold Fitting
    rw [hp]
    decide
  have hr : (wireBytes standard longFrame).length ≤ wideMemory.rx.length := by
    refine (wireBytes_length standard_lawful hf).trans ?_
    rw [wideMemory, length_replicate]
    decide
  constructor
  · rw [reassembles_wire standard_lawful ⟨by decide, rfl, rfl, rfl, Nat.zero_le _⟩ hf hr, hp]
    exact fun h => absurd h.1 (by decide)
  · rw [reassembles_wire standard_lawful host_idle (show Fitting 64 emptyHello by unfold Fitting; decide)
      (by decide +kernel)]
    exact fun h => absurd h.2 (by decide +kernel)

end Reiny.Link
