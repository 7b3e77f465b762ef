import Mathlib.Data.Nat.Notation

/-!
# FNV-1a

The hash of 32 bits by which shards and variants are chosen. The two modules that use it have the
same private function.
-/

namespace Rszero

def asBytes (s : String) : List UInt8 := s.toUTF8.data.toList

theorem asBytes_append (s t : String) : asBytes (s ++ t) = asBytes s ++ asBytes t := by
  simp [asBytes, String.toByteArray_append]

theorem asBytes_ofList (cs : List Char) :
    asBytes (String.ofList cs) = cs.flatMap String.utf8EncodeChar := by
  simp [asBytes, List.utf8Encode]

def fnv1a32 (data : List UInt8) : UInt32 :=
  data.foldl (fun hash byte => (hash ^^^ byte.toUInt32) * 0x01000193) 0x811c9dc5

example : fnv1a32 (asBytes "foobar") = 0xbf9cf968 := by decide

end Rszero
