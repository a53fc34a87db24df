import PyProxy.Master.OutputStream
import PyProxy.Protocol.Fixint

namespace PyProxy.Master.OutputStream
open Stream Protocol

variable (bc : Bincode)

-- what `take_session_id` gives after each read, up to the first read that fails
def yields (s : OutputStream) : List (List UInt8) → List String
  | [] => []
  | chunk :: chunks =>
    match s.read bc (.ok chunk) with
    | (.error _, _) => []
    | (.ok _, s) => s.takeSessionId.1.toList ++ yields s.takeSessionId.2 chunks

-- `bytes` begin with a complete frame, whose body decodes to a hello with `token`
structure Opens (bytes : List UInt8) (header : RequestMessageHeader) (token : String) : Prop where
  decoded : RequestMessageHeader.fromBuf (copyHeader requestHeaderSize bytes) = .ok header
  complete : requestHeaderSize + header.msgLenUsize ≤ bytes.length
  body : Output.readHello bc ((bytes.drop requestHeaderSize).take header.msgLenUsize) = .ok ⟨token⟩

def Greets (bytes : List UInt8) (token : String) : Prop :=
  ∃ header, Opens bc bytes header token ∧ header.msgType = .hello

-- how many bytes have been received at the end of each read
def readEnds (received : Nat) : List (List UInt8) → List Nat
  | [] => []
  | chunk :: chunks => (received + chunk.length) :: readEnds (received + chunk.length) chunks

def Stalled (buffer : List UInt8) : Prop :=
  buffer.length < requestHeaderSize ∨
    ∃ header, RequestMessageHeader.fromBuf (copyHeader requestHeaderSize buffer) = .ok header ∧
      buffer.length ≠ requestHeaderSize + header.msgLenUsize

variable {bc}

theorem Opens.initial {buffer rest : List UInt8} {header : RequestMessageHeader} {token : String}
    (h : Opens bc (buffer ++ rest) header token) (long : requestHeaderSize ≤ buffer.length) :
    RequestMessageHeader.fromBuf (copyHeader requestHeaderSize buffer) = .ok header := by
  have hh := h.decoded
  rwa [copyHeader_append _ _ _ long] at hh

theorem Opens.whole {buffer rest : List UInt8} {header : RequestMessageHeader} {token : String}
    (h : Opens bc (buffer ++ rest) header token)
    (full : buffer.length = requestHeaderSize + header.msgLenUsize) :
    Output.readHello bc ((buffer.drop requestHeaderSize).take header.msgLenUsize) = .ok ⟨token⟩ := by
  have hb := h.body
  rw [List.drop_append_of_le_length (by omega), List.take_append_of_le_length] at hb
  · exact hb
  · rw [List.length_drop]
    omega

inductive HelloCase (bc : Bincode) (s : OutputStream) : Except Error OutputStream → Prop where
  | stalled (h : Stalled s.inbuffer) : HelloCase bc s (.ok s)
  | malformed (e) (long : requestHeaderSize ≤ s.inbuffer.length)
      (h : RequestMessageHeader.fromBuf (copyHeader requestHeaderSize s.inbuffer) = .error e) :
      HelloCase bc s (.error (.protocol e))
  | refused (header e)
      (h : RequestMessageHeader.fromBuf (copyHeader requestHeaderSize s.inbuffer) = .ok header)
      (full : s.inbuffer.length = requestHeaderSize + header.msgLenUsize)
      (body : Output.readHello bc ((s.inbuffer.drop requestHeaderSize).take header.msgLenUsize) = .error e) :
      HelloCase bc s (.error (.protocol e))
  | bound (header msg)
      (h : RequestMessageHeader.fromBuf (copyHeader requestHeaderSize s.inbuffer) = .ok header)
      (full : s.inbuffer.length = requestHeaderSize + header.msgLenUsize)
      (body : Output.readHello bc ((s.inbuffer.drop requestHeaderSize).take header.msgLenUsize) = .ok msg) :
      HelloCase bc s (.ok { s with
        sessionId := some msg.streamToken
        inbuffer := s.inbuffer.drop (header.msgLenUsize + requestHeaderSize) })

theorem hello_cases (s : OutputStream) : HelloCase bc s (s.hello bc) := by
  simp only [hello, compact_eq_drop]
  split
  · exact .stalled (.inl ‹_›)
  · rename_i long
    cases hh : RequestMessageHeader.fromBuf (copyHeader requestHeaderSize s.inbuffer) with
    | error e => exact .malformed e (Nat.le_of_not_lt long) hh
    | ok header =>
      dsimp only
      split
      · exact .stalled (.inr ⟨header, hh, by omega⟩)
      · split
        · exact .stalled (.inr ⟨header, hh, by omega⟩)
        · have full : s.inbuffer.length = requestHeaderSize + header.msgLenUsize := by omega
          cases hb : Output.readHello bc ((s.inbuffer.drop requestHeaderSize).take header.msgLenUsize) with
          | error e => exact .refused header e hh full hb
          | ok msg => exact .bound header msg hh full hb

theorem yields_head {s : OutputStream} (unbound : s.sessionId = none) (chunks : List (List UInt8))
    (token : String) : (s.yields bc chunks).head? = some token ↔
      ∃ header, Opens bc (s.inbuffer ++ chunks.flatten) header token ∧
        requestHeaderSize + header.msgLenUsize ∈ readEnds s.inbuffer.length chunks := by
  induction chunks generalizing s with
  | nil => simp [yields, readEnds]
  | cons chunk chunks ih =>
    rw [List.flatten_cons, ← List.append_assoc, readEnds, ← List.length_append]
    have hcase := @hello_cases bc { s with inbuffer := s.inbuffer ++ chunk }
    simp only [yields, read]
    generalize OutputStream.hello bc { s with inbuffer := s.inbuffer ++ chunk } = res at hcase ⊢
    cases hcase with
    | stalled h =>
      have later := @ih { s with inbuffer := s.inbuffer ++ chunk } unbound
      simp only [takeSessionId, unbound, Option.toList_none, List.nil_append] at later ⊢
      rw [later]
      refine exists_congr fun header => and_congr_right fun opens => ?_
      rw [List.mem_cons, or_iff_right]
      intro full
      rcases h with short | ⟨header', hh, ne⟩
      · dsimp only at short
        omega
      · have same := opens.initial (by omega)
        dsimp only at hh
        rw [hh] at same
        cases same
        exact ne full.symm
    | malformed e long h =>
      refine iff_of_false (by simp) ?_
      rintro ⟨header, opens, -⟩
      have same := opens.initial long
      dsimp only at h
      rw [h] at same
      cases same
    | refused header e h full body =>
      refine iff_of_false (by simp) ?_
      rintro ⟨header', opens, -⟩
      dsimp only at h full body
      have same := opens.initial (by omega)
      rw [h] at same
      cases same
      rw [opens.whole full] at body
      cases body
    | bound header msg h full body =>
      dsimp only at h full body
      simp only [takeSessionId, Option.toList_some, List.singleton_append, List.head?_cons,
        Option.some.injEq]
      constructor
      · rintro rfl
        refine ⟨header, ⟨?_, ?_, ?_⟩, ?_⟩
        · rw [copyHeader_append _ _ _ (by omega), h]
        · rw [List.length_append]
          omega
        · rw [List.drop_append_of_le_length (by omega), List.take_append_of_le_length]
          · exact body
          · rw [List.length_drop]
            omega
        · rw [full]
          exact List.mem_cons_self
      · rintro ⟨header', opens, -⟩
        have same := opens.initial (by omega)
        rw [h] at same
        cases same
        rw [opens.whole full] at body
        cases body
        rfl

theorem recognised_iff (token : Token) (interest : Interest) (chunks : List (List UInt8)) :
    (∀ t, ((new token interest).yields bc chunks).head? = some t ↔ Greets bc chunks.flatten t) ↔
      ∀ header t, Opens bc chunks.flatten header t →
        (header.msgType = .hello ↔ requestHeaderSize + header.msgLenUsize ∈ readEnds 0 chunks) := by
  have first : ∀ t, ((new token interest).yields bc chunks).head? = some t ↔
      ∃ header, Opens bc chunks.flatten header t ∧
        requestHeaderSize + header.msgLenUsize ∈ readEnds 0 chunks := yields_head rfl chunks
  have unique : ∀ {header header' t t'}, Opens bc chunks.flatten header t →
      Opens bc chunks.flatten header' t' → header = header' := by
    intro header header' t t' h h'
    exact Except.ok.inj (h.decoded.symm.trans h'.decoded)
  constructor
  · intro recognised header t opens
    constructor
    · intro hello
      obtain ⟨header', opens', ends⟩ := (first t).mp ((recognised t).mpr ⟨header, opens, hello⟩)
      rwa [unique opens opens']
    · intro ends
      obtain ⟨header', opens', hello⟩ := (recognised t).mp ((first t).mpr ⟨header, opens, ends⟩)
      rwa [unique opens opens']
  · intro exact t
    rw [first]
    exact exists_congr fun header => and_congr_right fun opens => (exact header t opens).symm

def opening : List UInt8 := newReq fixint.clientHello .hello 0 ⟨"aa"⟩

-- one byte behind the frame, in the same read
theorem trailing_byte_blocks :
    ¬ ∀ t, ((new 5 ro).yields fixint [opening ++ [0]]).head? = some t ↔ Greets fixint (opening ++ [0]) t := by
  intro recognised
  have hello : Greets fixint (opening ++ [0]) "aa" :=
    ⟨_, ⟨rfl, by decide +kernel, by decide +kernel⟩, rfl⟩
  have none : ((new 5 ro).yields fixint [opening ++ [0]]).head? = none := by decide +kernel
  rw [(recognised "aa").mpr hello] at none
  cases none

end PyProxy.Master.OutputStream
