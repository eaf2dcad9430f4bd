import Reiny.Link.HelloCodec

namespace Reiny.Link.HelloCodec

open Lib Words Utf8 Results Wire HelloFormat List

def Appends (f : Writer → Except WireError Writer) (fits : Prop) (b : Bytes) : Prop :=
  ∀ w w', f w = .ok w' ↔ fits ∧ w.out.length + b.length ≤ w.cap ∧ w'.cap = w.cap ∧ w'.out = w.out ++ b

variable {f : Writer → Except WireError Writer} {P : Prop} {b : Bytes} {Q : Prop} {c : Bytes} {es : List HelloEntry}

lemma Appends.seq {g : Writer → Except WireError Writer} (hf : Appends f P b) (hg : Appends g Q c) :
    Appends (fun w => f w >>= g) (P ∧ Q) (b ++ c) := by
  intro w w'
  simp only [bind_ok, hf w, hg _ w', length_append]
  constructor
  · rintro ⟨v, ⟨hp, hb, hcap, ho⟩, hq, hc, hc', ho'⟩
    rw [ho, hcap, length_append] at hc
    exact ⟨⟨hp, hq⟩, by omega, hc'.trans hcap, by rw [ho', ho, append_assoc]⟩
  · rintro ⟨⟨hp, hq⟩, hbc, hcap, ho⟩
    refine ⟨⟨w.cap, w.out ++ b, by simp; omega⟩, ⟨hp, by omega, rfl, rfl⟩, hq, ?_, hcap, by simp [ho]⟩
    simp only [length_append]
    omega

lemma Appends.congr (hf : Appends f P b) (hp : P ↔ Q) (hb : b = c) : Appends f Q c := by
  subst hb
  intro w w'
  rw [hf w w', hp]

lemma bytes_appends (b : Bytes) : Appends (·.bytes b) True b := by
  intro w w'
  simp only [Writer.bytes, true_and]
  split_ifs with h
  · rw [Except.ok.injEq]
    refine ⟨fun he => by subst he; exact ⟨h, rfl, rfl⟩, fun he => ?_⟩
    exact Writer.ext he.2.1.symm he.2.2.symm
  · simp [h]

lemma u8_appends (v : UInt8) : Appends (·.u8 v) True [v] := bytes_appends [v]

lemma u32_appends (v : UInt32) : Appends (·.u32 v) True (le32 v) := bytes_appends (le32 v)

lemma u64_appends (v : UInt64) : Appends (·.u64 v) True (le64 v) := bytes_appends (le64 v)

lemma appends_unless {c : Prop} [Decidable c] (hf : Appends f P b) :
    Appends (fun w => if c then .error .tooLarge else f w) (¬ c ∧ P) b := by
  intro w w'
  by_cases hc : c
  · simp [hc]
  · simp only [hc, if_false, not_false_eq_true, true_and]
    exact hf w w'

lemma str_appends (s : Str) : Appends (·.str s) (Short s) (strBytes s) :=
  (appends_unless ((u8_appends _).seq (bytes_appends s.bytes))).congr (by simp [Short]) rfl

lemma endpoints_appends (sources : List Endpoint) :
    Appends (·.endpoints sources) (∀ s ∈ sources, EndpointShort s) (sources.flatMap endpointBytes) := by
  induction sources with
  | nil =>
    intro w w'
    have hw := w.bounded
    simp only [Writer.endpoints, Except.ok.injEq, Writer.ext_iff, not_mem_nil, false_imp_iff, implies_true,
      flatMap_nil, length_nil, Nat.add_zero, hw, append_nil, true_and]
    exact ⟨fun h => ⟨h.1.symm, h.2.symm⟩, fun h => ⟨h.1.symm, h.2.symm⟩⟩
  | cons source sources ih =>
    exact ((str_appends source.ns).seq ((str_appends source.port).seq ih)).congr
      (by simp [EndpointShort, and_assoc]) (by simp [endpointBytes])

lemma response_appends (r : Option HelloType) : Appends (·.response r) (ResponseShort r) (responseBytes r) := by
  cases r with
  | none => exact (u8_appends 0).congr (by simp [ResponseShort]) rfl
  | some r =>
    exact ((u8_appends 1).seq ((str_appends r.name).seq (u64_appends r.schema))).congr
      (by simp [ResponseShort]) rfl

lemma entry_appends (e : HelloEntry) : Appends (·.entry e) (Fits e) (entryBytes e) := by
  have hs := appends_unless (c := e.sources.iter.length > 255)
    ((u8_appends (UInt8.ofNat e.sources.iter.length)).seq (endpoints_appends e.sources.iter))
  refine ((u32_appends e.hash).seq ((u8_appends _).seq ((str_appends e.port).seq ((str_appends e.name).seq
    ((u64_appends e.schema).seq ((response_appends e.response).seq hs)))))).congr ?_ rfl
  constructor
  · rintro ⟨-, -, hp, hn, -, hr, hc, -, hsr⟩
    exact ⟨hp, hn, hr, by omega, hsr⟩
  · rintro ⟨hp, hn, hr, hc, hsr⟩
    exact ⟨trivial, trivial, hp, hn, trivial, hr, by omega, trivial, hsr⟩

lemma entries_ok {w w' : Writer} {count count' : UInt8} :
    w.entries count es = .ok (w', count') ↔ (∀ e ∈ es, Fits e) ∧ count.toNat + es.length ≤ 255 ∧
      w.out.length + (es.flatMap entryBytes).length ≤ w.cap ∧ w'.cap = w.cap ∧
      w'.out = w.out ++ es.flatMap entryBytes ∧ count' = UInt8.ofNat (count.toNat + es.length) := by
  induction es generalizing w count with
  | nil =>
    have hw := w.bounded
    have hc := Nat.le_of_lt_succ count.toNat_lt
    simp only [Writer.entries, Except.ok.injEq, Prod.mk.injEq, Writer.ext_iff, not_mem_nil, false_imp_iff,
      implies_true, flatMap_nil, length_nil, Nat.add_zero, hw, hc, append_nil, true_and,
      UInt8.ofNat_toNat]
    exact ⟨fun h => ⟨h.1.1.symm, h.1.2.symm, h.2.symm⟩, fun h => ⟨⟨h.1.symm, h.2.1.symm⟩, h.2.2.symm⟩⟩
  | cons e es ih =>
    simp only [Writer.entries, bind_ok, entry_appends e w, mem_cons, forall_eq_or_imp,
      flatMap_cons, length_append, length_cons]
    constructor
    · rintro ⟨v, ⟨he, hb, hcap, ho⟩, h⟩
      split_ifs at h with hc
      obtain ⟨hes, hcnt, hl, hc', ho', rfl⟩ := ih.mp h
      have hlt : count.toNat < 255 := by
        have := count.toNat_lt
        have hne : count.toNat ≠ 255 := fun hh => hc (UInt8.toNat_inj.mp hh)
        omega
      have hs : (count + 1).toNat = count.toNat + 1 := by
        rw [UInt8.toNat_add]
        exact Nat.mod_eq_of_lt (by simpa using by omega)
      rw [hs] at hcnt ⊢
      rw [ho, hcap, length_append] at hl
      refine ⟨⟨he, hes⟩, by omega, by omega, hc'.trans hcap, by rw [ho', ho, append_assoc], ?_⟩
      congr 1
      omega
    · rintro ⟨⟨he, hes⟩, hcnt, hl, hcap, ho, rfl⟩
      refine ⟨⟨w.cap, w.out ++ entryBytes e, by simp; omega⟩, ⟨he, by omega, rfl, rfl⟩, ?_⟩
      have hs : (count + 1).toNat = count.toNat + 1 := by
        rw [UInt8.toNat_add]
        exact Nat.mod_eq_of_lt (by simpa using by omega)
      rw [if_neg (by rintro rfl; simp at hcnt)]
      refine ih.mpr ⟨hes, by omega, by simp only [length_append]; omega, hcap, by simp [ho], ?_⟩
      rw [hs]
      congr 1
      omega

lemma patch_count (head tail : Bytes) (count : UInt8) :
    ((head ++ [0]) ++ tail).set head.length count = head ++ ([count] ++ tail) := by
  rw [append_assoc, set_append_right _ _ le_rfl, Nat.sub_self]
  rfl

lemma head_appends (flags : UInt8) (id : Str) :
    Appends (fun w => w.u8 flags >>= fun w => w.bytes (le16 SCHEMA_FINGERPRINT_VERSION) >>= fun w => w.str id)
      (Short id) ([flags] ++ (le16 SCHEMA_FINGERPRINT_VERSION ++ strBytes id)) :=
  ((u8_appends flags).seq ((bytes_appends _).seq (str_appends id))).congr (by simp) rfl

lemma helloWrite_ok {cap : ℕ} {ack bridge : Bool} {id : Str} {p : Bytes} :
    helloWrite cap ack bridge id es = .ok p ↔ Short id ∧ (∀ e ∈ es, Fits e) ∧ es.length ≤ 255 ∧
      p.length ≤ cap ∧ p = helloBytes ack bridge id es := by
  have ha : helloWrite cap ack bridge id es =
      (((Writer.mk cap [] (Nat.zero_le cap)).u8 (helloFlags ack bridge) >>= fun w =>
        w.bytes (le16 SCHEMA_FINGERPRINT_VERSION) >>= fun w => w.str id) >>= fun head => head.u8 0 >>= fun w =>
          w.entries 0 es >>= fun x => .ok (x.1.out.set head.out.length x.2)) := by
    simp only [helloWrite, bind_assoc]
    rfl
  rw [ha]
  simp only [bind_ok (x := _ >>= _), head_appends _ _ _ _]
  simp only [bind_ok, u8_appends _ _, true_and, Prod.exists, entries_ok, Except.ok.injEq]
  constructor
  · rintro ⟨head, ⟨hid, h₁, hc₁, ho₁⟩, w, ⟨h₂, hc₂, ho₂⟩, w', count, ⟨hes, hc, h₃, hc₃, ho₃, rfl⟩, rfl⟩
    rw [nil_append] at ho₁
    rw [ho₂] at h₃ ho₃
    rw [hc₂, hc₁] at h₃
    rw [ho₃, patch_count, ho₁]
    rw [ho₁] at h₃
    have hz : (0 : UInt8).toNat + es.length = es.length := Nat.zero_add _
    rw [hz] at hc ⊢
    refine ⟨hid, hes, hc, ?_, by simp only [helloBytes, append_assoc]⟩
    simp only [length_append] at h₃ ⊢
    simp only [length_singleton] at h₃ ⊢
    omega
  · rintro ⟨hid, hes, hc, hl, rfl⟩
    have hz : (0 : UInt8).toNat + es.length = es.length := Nat.zero_add _
    let he := [helloFlags ack bridge] ++ (le16 SCHEMA_FINGERPRINT_VERSION ++ strBytes id)
    have hsp : helloBytes ack bridge id es =
        he ++ ([UInt8.ofNat es.length] ++ es.flatMap entryBytes) := by
      simp only [helloBytes, he, append_assoc]
    have hs : he.length + 1 + (es.flatMap entryBytes).length ≤ cap := by
      rw [hsp] at hl
      simp only [length_append, length_singleton] at hl
      omega
    refine ⟨⟨cap, he, by omega⟩, ⟨hid, ?_, rfl, rfl⟩, ⟨cap, he ++ [0], by simp; omega⟩,
      ⟨?_, rfl, rfl⟩, ⟨cap, (he ++ [0]) ++ es.flatMap entryBytes,
        by simp only [length_append, length_singleton]; omega⟩,
      UInt8.ofNat es.length, ⟨hes, by omega, ?_, rfl, rfl, by rw [hz]⟩, ?_⟩
    · change 0 + he.length ≤ cap
      omega
    · change he.length + 1 ≤ cap
      omega
    · simp only [length_append, length_singleton]
      omega
    · rw [patch_count, hsp]

end Reiny.Link.HelloCodec
