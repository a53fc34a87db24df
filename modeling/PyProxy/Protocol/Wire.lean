import Mathlib.Algebra.Group.Nat.Defs
import Mathlib.Data.List.Basic

namespace PyProxy.Protocol

def asBytes (s : String) : List UInt8 := s.toByteArray.data.toList

def fromUtf8 (b : List UInt8) : Option String := String.fromUTF8? ⟨b.toArray⟩

theorem fromUtf8_eq_some {b : List UInt8} {s : String} : fromUtf8 b = some s ↔ asBytes s = b := by
  unfold fromUtf8 String.fromUTF8?
  constructor
  · intro h
    split at h
    · cases h
      rfl
    · cases h
  · rintro rfl
    have hb : (⟨(asBytes s).toArray⟩ : ByteArray) = s.toByteArray := by simp [asBytes]
    simp only [hb]
    rw [dif_pos]
    · rfl
    · exact s.isValidUTF8

@[simp] theorem fromUtf8_asBytes (s : String) : fromUtf8 (asBytes s) = some s :=
  fromUtf8_eq_some.mpr rfl

def toBeBytes (n : UInt32) : Vector UInt8 4 :=
  #v[.ofNat (n.toNat / 2 ^ 24), .ofNat (n.toNat / 2 ^ 16), .ofNat (n.toNat / 2 ^ 8), .ofNat n.toNat]

def fromBeBytes (b : Vector UInt8 4) : UInt32 :=
  .ofNat (b.toList.foldl (fun n x => n * 256 + x.toNat) 0)

theorem fromBeBytes_toBeBytes (n : UInt32) : fromBeBytes (toBeBytes n) = n := by
  have hn := n.toNat_lt
  apply UInt32.toNat_inj.mp
  simp [fromBeBytes, toBeBytes]
  omega

def asU32 (n : Nat) : UInt32 := .ofNat n

theorem asU32_toNat {n : Nat} (h : n < 2 ^ 32) : (asU32 n).toNat = n :=
  UInt32.toNat_ofNat_of_lt h

end PyProxy.Protocol
