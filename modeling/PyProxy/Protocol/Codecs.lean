import PyProxy.Protocol.Header
import PyProxy.Stream.Headed
import Mathlib.Tactic.IntervalCases

namespace PyProxy.Protocol
open Stream

theorem MessageType.asU8_of_fromU8 {b : UInt8} {t : MessageType} (h : fromU8 b = .ok t) :
    t.asU8 = b := by
  simp only [fromU8] at h
  split at h
  · rename_i hb
    cases h
    exact hb.symm
  · split at h
    · rename_i hb
      cases h
      exact hb.symm
    · split at h
      · rename_i hb
        cases h
        exact hb.symm
      · cases h

-- the buffer with its reserved byte cleared
def unreserved {n : Nat} (b : Vector UInt8 (n + 1)) : Vector UInt8 (n + 1) := b.set 0 0

theorem unreserved_eq_iff {n : Nat} (b : Vector UInt8 (n + 1)) : unreserved b = b ↔ b[0] = 0 := by
  constructor
  · intro h
    rw [← h]
    exact Vector.getElem_set_self ..
  · intro h
    rw [unreserved, ← h, Vector.set_getElem_self]

namespace RequestMessageHeader

theorem fromBuf_wrongVersion {b : Vector UInt8 requestHeaderSize} (h : b[1] ≠ Protocol.version) :
    fromBuf b = .error (.wrongVersion (b[1])) := if_pos h

theorem fromBuf_ok {b : Vector UInt8 requestHeaderSize} {h : RequestMessageHeader}
    (hb : fromBuf b = .ok h) :
    b[1] = Protocol.version ∧ MessageType.fromU8 (b[2]) = .ok h.msgType ∧
      h = ⟨0, b[1], h.msgType, b[3], #v[b[4], b[5], b[6], b[7]]⟩ := by
  simp only [fromBuf] at hb
  split at hb
  · cases hb
  · rename_i hv
    cases ht : MessageType.fromU8 (b[2]) with
    | error e =>
      rw [ht] at hb
      cases hb
    | ok t =>
      rw [ht] at hb
      cases hb
      exact ⟨not_not.mp hv, rfl, rfl⟩

theorem intoBuf_fromBuf {b : Vector UInt8 requestHeaderSize} {h : RequestMessageHeader}
    (hb : fromBuf b = .ok h) : h.intoBuf = unreserved b := by
  obtain ⟨-, ht, hh⟩ := fromBuf_ok hb
  rw [hh]
  have htype := MessageType.asU8_of_fromU8 ht
  apply Vector.ext
  intro i hi
  interval_cases i <;> simp [intoBuf, unreserved, htype]

theorem canonical : Canonical fromBuf intoBuf unreserved where
  decode_canon b := by simp [fromBuf, unreserved]
  encode_eq := intoBuf_fromBuf

end RequestMessageHeader

namespace ResponseMessageHeader

theorem fromBuf_ok {b : Vector UInt8 responseHeaderSize} {h : ResponseMessageHeader}
    (hb : fromBuf b = .ok h) :
    b[1] = Protocol.version ∧ MessageType.fromU8 (b[2]) = .ok h.msgType ∧
      h = ⟨0, b[1], h.msgType, b[3], #v[b[4], b[5], b[6], b[7]], #v[b[8], b[9], b[10], b[11]]⟩ := by
  simp only [fromBuf] at hb
  split at hb
  · cases hb
  · rename_i t ht
    split at hb
    · cases hb
    · rename_i hv
      cases hb
      exact ⟨not_not.mp hv, ht, rfl⟩

theorem fromBuf_wrongVersion {b : Vector UInt8 responseHeaderSize} {t : MessageType}
    (h : b[1] ≠ Protocol.version) (ht : MessageType.fromU8 (b[2]) = .ok t) :
    fromBuf b = .error (.wrongVersion (b[1])) := by
  simp only [fromBuf, ht]
  exact if_pos h

theorem intoBuf_fromBuf {b : Vector UInt8 responseHeaderSize} {h : ResponseMessageHeader}
    (hb : fromBuf b = .ok h) : h.intoBuf = unreserved b := by
  obtain ⟨-, ht, hh⟩ := fromBuf_ok hb
  rw [hh]
  have htype := MessageType.asU8_of_fromU8 ht
  apply Vector.ext
  intro i hi
  interval_cases i <;> simp [intoBuf, unreserved, htype]

theorem canonical : Canonical fromBuf intoBuf unreserved where
  decode_canon b := by simp [fromBuf, unreserved]
  encode_eq := intoBuf_fromBuf

end ResponseMessageHeader

-- a response is classified by its type byte first, so the last part needs a type that is known
theorem header_codecs :
    (∀ t sub n, RequestMessageHeader.fromBuf (RequestMessageHeader.new t sub n).intoBuf =
      .ok (.new t sub n)) ∧
    (∀ t sub n seq, ResponseMessageHeader.fromBuf (ResponseMessageHeader.new t sub n seq).intoBuf =
      .ok (.new t sub n seq)) ∧
    (∀ b h, RequestMessageHeader.fromBuf b = .ok h → h.intoBuf = b.set 0 0 ∧
      (h.intoBuf = b ↔ b[0] = 0) ∧ RequestMessageHeader.fromBuf h.intoBuf = .ok h) ∧
    (∀ b h, ResponseMessageHeader.fromBuf b = .ok h → h.intoBuf = b.set 0 0 ∧
      (h.intoBuf = b ↔ b[0] = 0) ∧ ResponseMessageHeader.fromBuf h.intoBuf = .ok h) ∧
    (∀ b, b[1] ≠ version → RequestMessageHeader.fromBuf b = .error (.wrongVersion (b[1]))) ∧
    (∀ b, b[1] ≠ version → ∃ e, ResponseMessageHeader.fromBuf b = .error e) ∧
    ∀ b t, b[1] ≠ version → MessageType.fromU8 (b[2]) = .ok t →
      ResponseMessageHeader.fromBuf b = .error (.wrongVersion (b[1])) := by
  refine ⟨RequestMessageHeader.fromBuf_intoBuf_new, ResponseMessageHeader.fromBuf_intoBuf_new,
    ?_, ?_, ?_, ?_, ?_⟩
  · intro b h hb
    exact ⟨RequestMessageHeader.intoBuf_fromBuf hb,
      (RequestMessageHeader.canonical.encode_eq_iff hb).trans (unreserved_eq_iff b),
      RequestMessageHeader.canonical.decode_encode hb⟩
  · intro b h hb
    exact ⟨ResponseMessageHeader.intoBuf_fromBuf hb,
      (ResponseMessageHeader.canonical.encode_eq_iff hb).trans (unreserved_eq_iff b),
      ResponseMessageHeader.canonical.decode_encode hb⟩
  · exact fun b => RequestMessageHeader.fromBuf_wrongVersion
  · intro b hv
    cases hb : ResponseMessageHeader.fromBuf b with
    | error e => exact ⟨e, rfl⟩
    | ok h => exact absurd (ResponseMessageHeader.fromBuf_ok hb).1 hv
  · exact fun b t => ResponseMessageHeader.fromBuf_wrongVersion

theorem header_codecs_dirty :
    (RequestMessageHeader.new .codeString 7 300).intoBuf = #v[0, 0, 2, 7, 0, 0, 1, 44] ∧
    ResponseMessageHeader.fromBuf #v[0, 9, 2, 0, 0, 0, 0, 0, 0, 0, 0, 0] =
      .error (.wrongVersion 9) := by
  obtain ⟨-, -, request, -, -, -, response⟩ := header_codecs
  exact ⟨(request #v[5, 0, 2, 7, 0, 0, 1, 44] (.new .codeString 7 300) rfl).1,
    response #v[0, 9, 2, 0, 0, 0, 0, 0, 0, 0, 0, 0] .codeString (by decide) rfl⟩

theorem reserved_byte_lost :
    (∃ h, RequestMessageHeader.fromBuf #v[5, 0, 1, 0, 0, 0, 0, 0] = .ok h ∧
      h.intoBuf ≠ #v[5, 0, 1, 0, 0, 0, 0, 0]) ∧
    (∃ h, ResponseMessageHeader.fromBuf #v[5, 0, 1, 0, 0, 0, 0, 0, 0, 0, 0, 0] = .ok h ∧
      h.intoBuf ≠ #v[5, 0, 1, 0, 0, 0, 0, 0, 0, 0, 0, 0]) ∧
    ResponseMessageHeader.fromBuf #v[0, 9, 4, 0, 0, 0, 0, 0, 0, 0, 0, 0] =
      .error (.unrecognisedMessageType 4) :=
  ⟨⟨_, rfl, by decide⟩, ⟨_, rfl, by decide⟩, rfl⟩

end PyProxy.Protocol
