import PyProxy.Os
import PyProxy.Protocol.Header

namespace PyProxy.Master
open Protocol

structure ClientStream where
  stream : Sock
  buffer : Vector UInt8 requestHeaderSize
  bytesRead : Nat

namespace ClientStream

inductive ReadResult where
  | continue
  | closed
  | error (e : IoError)
  | done

def new (stream : Sock) : ClientStream := ⟨stream, .replicate requestHeaderSize 0, 0⟩

def room (s : ClientStream) : Nat := requestHeaderSize - s.bytesRead

def fill (s : ClientStream) (bytes : List UInt8) : ClientStream where
  stream := s.stream
  buffer := .ofFn fun i => if i.val < s.bytesRead then s.buffer[i] else
    bytes.getD (i.val - s.bytesRead) s.buffer[i]
  bytesRead := s.bytesRead + bytes.length

def read (s : ClientStream) : IoResult (List UInt8) → ReadResult × ClientStream
  | .error e => (.error e, s)
  | .ok [] => (.closed, s)
  | .ok bytes =>
    let s := s.fill bytes
    (if s.bytesRead = requestHeaderSize then .done else .continue, s)

def header (s : ClientStream) : Vector UInt8 requestHeaderSize := s.buffer

def rawFd (s : ClientStream) : Sock := s.stream

@[simp] theorem new_stream (stream : Sock) : (new stream).stream = stream := rfl

theorem read_stream (s : ClientStream) (res : IoResult (List UInt8)) :
    (s.read res).2.stream = s.stream := by
  rcases res with e | _ | ⟨b, bs⟩ <;> rfl

theorem fill_taken {s : ClientStream} {bytes : List UInt8}
    (fits : s.bytesRead + bytes.length ≤ requestHeaderSize) :
    (s.fill bytes).buffer.toList.take (s.bytesRead + bytes.length) =
      s.buffer.toList.take s.bytesRead ++ bytes := by
  have hlen : (s.buffer.toList.take s.bytesRead).length = s.bytesRead := by
    simp only [List.length_take, Vector.length_toList]
    omega
  apply List.ext_getElem?
  intro i
  by_cases hi : i < s.bytesRead + bytes.length
  · have hsize : i < requestHeaderSize := Nat.lt_of_lt_of_le hi fits
    rw [List.getElem?_take, if_pos hi]
    by_cases old : i < s.bytesRead
    · rw [List.getElem?_append_left (by omega), List.getElem?_take, if_pos old]
      simp [fill, hsize, old]
    · rw [List.getElem?_append_right (by omega), hlen]
      have hb : i - s.bytesRead < bytes.length := by omega
      simp [fill, hsize, old, hb]
  · rw [List.getElem?_take, if_neg hi, List.getElem?_eq_none]
    simp only [List.length_append, hlen]
    omega

end ClientStream
end PyProxy.Master
