import PyProxy.Protocol.Message

namespace PyProxy.Protocol
open Server

structure Wire (T : Type) where
  put : T → List UInt8
  get : List UInt8 → Except String (T × List UInt8)

namespace Wire

variable {T U : Type}

def Lawful (w : Wire T) : Prop :=
  ∀ t, (w.put t).length < 2 ^ 32 → ∀ rest, w.get (w.put t ++ rest) = .ok (t, rest)

def leBytes : Nat → Nat → List UInt8
  | 0, _ => []
  | k + 1, n => UInt8.ofNat n :: leBytes k (n / 256)

def leValue : List UInt8 → Nat
  | [] => 0
  | b :: bs => b.toNat + 256 * leValue bs

@[simp] theorem leBytes_length (k n : Nat) : (leBytes k n).length = k := by
  induction k generalizing n with
  | zero => rfl
  | succ k ih => simp [leBytes, ih]

theorem leValue_leBytes (k n : Nat) (h : n < 256 ^ k) : leValue (leBytes k n) = n := by
  induction k generalizing n with
  | zero =>
    simp only [Nat.pow_zero] at h
    simp only [leBytes, leValue]
    omega
  | succ k ih =>
    have hdiv : n / 256 < 256 ^ k := by
      rw [Nat.pow_succ] at h
      omega
    simp only [leBytes, leValue, ih _ hdiv, UInt8.toNat_ofNat']
    omega

def word (k : Nat) : Wire Nat where
  put := leBytes k
  get b := if b.length < k then .error "unexpected end of file" else .ok (leValue (b.take k), b.drop k)

theorem word_get {k n : Nat} (h : n < 256 ^ k) (rest : List UInt8) :
    (word k).get ((word k).put n ++ rest) = .ok (n, rest) := by
  simp only [word, List.length_append, leBytes_length]
  rw [if_neg (by omega), List.take_left' (leBytes_length k n), List.drop_left' (leBytes_length k n),
    leValue_leBytes k n h]

def blob : Wire (List UInt8) where
  put b := (word 8).put b.length ++ b
  get b :=
    match (word 8).get b with
    | .error e => .error e
    | .ok (n, rest) =>
      if rest.length < n then .error "unexpected end of file" else .ok (rest.take n, rest.drop n)

theorem blob_lawful : blob.Lawful := by
  intro b hb rest
  have hlen : b.length < 256 ^ 8 := by
    simp only [blob, word, List.length_append, leBytes_length] at hb
    omega
  simp only [blob, List.append_assoc, word_get hlen, List.length_append]
  rw [if_neg (by omega), List.take_left, List.drop_left]

def text : Wire String where
  put s := blob.put (asBytes s)
  get b :=
    match blob.get b with
    | .error e => .error e
    | .ok (raw, rest) =>
      match fromUtf8 raw with
      | none => .error "invalid utf-8"
      | some s => .ok (s, rest)

theorem text_lawful : text.Lawful := by
  intro s hs rest
  simp only [text, blob_lawful (asBytes s) hs rest, fromUtf8_asBytes]

def pair (a : Wire T) (b : Wire U) : Wire (T × U) where
  put p := a.put p.1 ++ b.put p.2
  get buf :=
    match a.get buf with
    | .error e => .error e
    | .ok (t, rest) =>
      match b.get rest with
      | .error e => .error e
      | .ok (u, rest) => .ok ((t, u), rest)

theorem pair_lawful {a : Wire T} {b : Wire U} (ha : a.Lawful) (hb : b.Lawful) :
    (pair a b).Lawful := by
  intro p hp rest
  simp only [pair, List.length_append] at hp
  simp only [pair, List.append_assoc, ha p.1 (by omega), hb p.2 (by omega)]

def iso (w : Wire T) (into : T → U) (from_ : U → T) : Wire U where
  put u := w.put (from_ u)
  get b :=
    match w.get b with
    | .error e => .error e
    | .ok (t, rest) => .ok (into t, rest)

theorem iso_lawful {w : Wire T} {into : T → U} {from_ : U → T} (h : w.Lawful)
    (inv : ∀ u, into (from_ u) = u) : (w.iso into from_).Lawful := by
  intro u hu rest
  simp only [iso, h (from_ u) hu rest, inv]

def pythonResult : Wire PythonResult where
  put
    | .error e => (word 4).put 0 ++ blob.put e
    | .return r => (word 4).put 1 ++ blob.put r
  get b :=
    match (word 4).get b with
    | .error e => .error e
    | .ok (tag, rest) =>
      match blob.get rest with
      | .error e => .error e
      | .ok (raw, rest) =>
        if tag = 0 then .ok (.error raw, rest)
        else if tag = 1 then .ok (.return raw, rest)
        else .error "invalid enum tag"

def codec (w : Wire T) : Codec T where
  serialize := w.put
  deserialize b := (w.get b).map Prod.fst

theorem codec_roundTrips {w : Wire T} (h : w.Lawful) : w.codec.RoundTrips := by
  intro t ht
  have hg := h t ht []
  rw [List.append_nil] at hg
  simp [codec, hg, Except.map]

def codeString : Wire CodeString :=
  (pair text (pair text (pair blob blob))).iso (fun p => ⟨p.1, p.2.1, p.2.2.1, p.2.2.2⟩)
    (fun s => (s.futureId, s.code, s.locals, s.globals))

theorem codeString_lawful : codeString.Lawful :=
  iso_lawful (pair_lawful text_lawful (pair_lawful text_lawful (pair_lawful blob_lawful blob_lawful)))
    fun _ => rfl

def codePickle : Wire CodePickle :=
  (pair text (pair blob (pair blob blob))).iso (fun p => ⟨p.1, p.2.1, p.2.2.1, p.2.2.2⟩)
    (fun s => (s.futureId, s.pickle, s.locals, s.globals))

def responseCodeString : Wire ResponseCodeString :=
  (pair text pythonResult).iso (fun p => ⟨p.1, p.2⟩) (fun s => (s.futureId, s.pyResult))

def responseCodePickle : Wire ResponseCodePickle :=
  (pair text pythonResult).iso (fun p => ⟨p.1, p.2⟩) (fun s => (s.futureId, s.pyResult))

def responseClientHello : Wire ResponseClientHello :=
  (pair text (pair text text)).iso (fun p => ⟨p.1, p.2.1, p.2.2⟩)
    (fun s => (s.sessionId, s.streamToken, s.outputAddr))

theorem responseClientHello_lawful : responseClientHello.Lawful :=
  iso_lawful (pair_lawful text_lawful (pair_lawful text_lawful text_lawful)) fun _ => rfl

def clientHello : Wire ClientHello := text.iso (fun s => ⟨s⟩) (fun h => h.streamToken)

theorem clientHello_lawful : clientHello.Lawful := iso_lawful text_lawful fun _ => rfl

def seqGet (w : Wire T) : Nat → List UInt8 → Except String (List T × List UInt8)
  | 0, b => .ok ([], b)
  | n + 1, b =>
    match w.get b with
    | .error e => .error e
    | .ok (t, rest) =>
      match seqGet w n rest with
      | .error e => .error e
      | .ok (ts, rest) => .ok (t :: ts, rest)

def seq (w : Wire T) : Wire (List T) where
  put ts := (word 8).put ts.length ++ ts.flatMap w.put
  get b :=
    match (word 8).get b with
    | .error e => .error e
    | .ok (n, rest) => seqGet w n rest

theorem seq_lawful {w : Wire T} (h : w.Lawful) (pos : ∀ t, 0 < (w.put t).length) :
    (seq w).Lawful := by
  have items : ∀ ts : List T, (ts.flatMap w.put).length < 2 ^ 32 → ∀ rest,
      seqGet w ts.length (ts.flatMap w.put ++ rest) = .ok (ts, rest) := by
    intro ts
    induction ts with
    | nil => exact fun _ _ => rfl
    | cons t ts ih =>
      intro hts rest
      simp only [List.flatMap_cons, List.length_append] at hts
      simp only [List.flatMap_cons, List.length_cons, seqGet, List.append_assoc,
        h t (by omega), ih (by omega) rest]
  have count : ∀ ts : List T, ts.length ≤ (ts.flatMap w.put).length := by
    intro ts
    induction ts with
    | nil => exact Nat.le_refl 0
    | cons t ts ih =>
      have := pos t
      simp only [List.flatMap_cons, List.length_append, List.length_cons]
      omega
  intro ts hts rest
  have hcount := count ts
  simp only [seq, List.length_append] at hts
  have hlen : ts.length < 256 ^ 8 := by omega
  simp only [seq, List.append_assoc, word_get hlen]
  exact items ts (by omega) rest

def logLevel : Wire LogLevel where
  put
    | .info => (word 4).put 0
    | .warn => (word 4).put 1
    | .error => (word 4).put 2
  get b :=
    match (word 4).get b with
    | .error e => .error e
    | .ok (tag, rest) =>
      if tag = 0 then .ok (.info, rest)
      else if tag = 1 then .ok (.warn, rest)
      else if tag = 2 then .ok (.error, rest)
      else .error "invalid enum tag"

theorem logLevel_lawful : logLevel.Lawful := by
  intro l _ rest
  cases l with
  | info => simp [logLevel, word_get (show 0 < 256 ^ 4 by decide)]
  | warn => simp [logLevel, word_get (show 1 < 256 ^ 4 by decide)]
  | error => simp [logLevel, word_get (show 2 < 256 ^ 4 by decide)]

def logValue : Wire LogValue where
  put
    | .string s => (word 4).put 0 ++ text.put s
    | .uint n => (word 4).put 1 ++ (word 8).put n.toNat
    | .int n => (word 4).put 2 ++ (word 8).put n.toUInt64.toNat
    | .bool b => (word 4).put 3 ++ (word 1).put b.toNat
  get b :=
    match (word 4).get b with
    | .error e => .error e
    | .ok (tag, rest) =>
      if tag = 0 then (text.get rest).map fun p => (.string p.1, p.2)
      else if tag = 1 then ((word 8).get rest).map fun p => (.uint (.ofNat p.1), p.2)
      else if tag = 2 then ((word 8).get rest).map fun p => (.int (UInt64.ofNat p.1).toInt64, p.2)
      else if tag = 3 then ((word 1).get rest).map fun p => (.bool (p.1 ≠ 0), p.2)
      else .error "invalid enum tag"

theorem logValue_lawful : logValue.Lawful := by
  intro v hv rest
  cases v with
  | string s =>
    simp only [logValue, List.length_append] at hv
    simp only [logValue, List.append_assoc, word_get (show 0 < 256 ^ 4 by decide),
      text_lawful s (by omega), if_true]
    rfl
  | uint n =>
    have hn : n.toNat < 256 ^ 8 := n.toNat_lt
    simp only [logValue, List.append_assoc, word_get (show 1 < 256 ^ 4 by decide), word_get hn,
      Nat.one_ne_zero, if_false, if_true]
    simp [Except.map]
  | int n =>
    have hn : n.toUInt64.toNat < 256 ^ 8 := n.toUInt64.toNat_lt
    simp only [logValue, List.append_assoc, word_get (show 2 < 256 ^ 4 by decide), word_get hn]
    simp [Except.map]
  | bool b =>
    have hb : b.toNat < 256 ^ 1 := by cases b <;> decide
    simp only [logValue, List.append_assoc, word_get (show 3 < 256 ^ 4 by decide), word_get hb]
    cases b <;> rfl

def logMessage : Wire LogMessage :=
  (pair logLevel (pair text (pair text (seq (pair text logValue))))).iso
    (fun p => ⟨p.1, p.2.1, p.2.2.1, p.2.2.2⟩) (fun m => (m.level, m.msg, m.ts, m.tags))

theorem logMessage_lawful : logMessage.Lawful := by
  refine iso_lawful (pair_lawful logLevel_lawful (pair_lawful text_lawful (pair_lawful text_lawful
    (seq_lawful (pair_lawful text_lawful logValue_lawful) fun t => ?_)))) fun _ => rfl
  simp only [pair, text, blob, word, List.length_append, leBytes_length]
  omega

def printMessage : Wire PrintMessage := text.iso (fun s => ⟨s⟩) (fun m => m.message)

theorem printMessage_lawful : printMessage.Lawful := iso_lawful text_lawful fun _ => rfl

end Wire

def fixint : Bincode where
  codeString := Wire.codeString.codec
  codePickle := Wire.codePickle.codec
  responseCodeString := Wire.responseCodeString.codec
  responseCodePickle := Wire.responseCodePickle.codec
  responseClientHello := Wire.responseClientHello.codec
  clientHello := Wire.clientHello.codec

theorem fixint_codeString_roundTrips : fixint.codeString.RoundTrips :=
  Wire.codec_roundTrips Wire.codeString_lawful

def fixintMessages : MessageCodecs where
  logMessage := Wire.logMessage.codec
  printMessage := Wire.printMessage.codec

theorem fixint_logMessage_roundTrips : fixintMessages.logMessage.RoundTrips :=
  Wire.codec_roundTrips Wire.logMessage_lawful

theorem fixint_printMessage_roundTrips : fixintMessages.printMessage.RoundTrips :=
  Wire.codec_roundTrips Wire.printMessage_lawful

theorem fixint_clientHello_roundTrips : fixint.clientHello.RoundTrips :=
  Wire.codec_roundTrips Wire.clientHello_lawful

theorem fixint_responseClientHello_roundTrips : fixint.responseClientHello.RoundTrips :=
  Wire.codec_roundTrips Wire.responseClientHello_lawful

theorem fixint_helloSizes : HelloSizes fixint where
  clientHello h := by
    simp [fixint, Wire.codec, Wire.clientHello, Wire.iso, Wire.text, Wire.blob, Wire.word]
  responseClientHello h := by
    simp [fixint, Wire.codec, Wire.responseClientHello, Wire.iso, Wire.pair, Wire.text, Wire.blob,
      Wire.word]
    omega

def lowerHex (b : List UInt8) : String :=
  String.ofList (b.flatMap fun x => [Nat.digitChar (x.toNat / 16), Nat.digitChar (x.toNat % 16)])

theorem lowerHex_bytes (b : List UInt8) : asBytes (lowerHex b) =
    b.flatMap fun x => String.utf8EncodeChar (Nat.digitChar (x.toNat / 16)) ++
      String.utf8EncodeChar (Nat.digitChar (x.toNat % 16)) := by
  simp [lowerHex, asBytes, List.utf8Encode, List.flatMap_assoc]

theorem digitChar_encoded : ∀ d < 16, (String.utf8EncodeChar (Nat.digitChar d)).length = 1 ∧
    ∀ x ∈ String.utf8EncodeChar (Nat.digitChar d), 48 ≤ x ∧ x ≤ 57 ∨ 97 ≤ x ∧ x ≤ 102 := by
  decide +kernel

theorem lowerHex_digits : HexDigits lowerHex where
  length b := by
    rw [lowerHex_bytes]
    induction b with
    | nil => rfl
    | cons x b ih =>
      have hx := x.toNat_lt
      have high := (digitChar_encoded (x.toNat / 16) (by omega)).1
      have low := (digitChar_encoded (x.toNat % 16) (by omega)).1
      rw [List.flatMap_cons, List.length_append, List.length_append, ih, high, low, List.length_cons]
      omega
  digits b y hy := by
    rw [lowerHex_bytes] at hy
    obtain ⟨x, -, hy⟩ := List.mem_flatMap.mp hy
    have hx := x.toNat_lt
    rcases List.mem_append.mp hy with hy | hy
    · exact (digitChar_encoded (x.toNat / 16) (by omega)).2 y hy
    · exact (digitChar_encoded (x.toNat % 16) (by omega)).2 y hy

end PyProxy.Protocol
