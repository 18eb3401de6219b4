import Loadable.Bundle.Header
import Loadable.Proofs.Bytes

namespace Loadable.Bundle.Header

open Loadable.Format

theorem length_toBytes (header : Header) : header.toBytes.length = size := by
  rw [toBytes, Bytes.length_ofWords]
  rfl

theorem parse_toBytes (header : Header) (rest : Bytes) :
    parse (header.toBytes ++ rest) = .ok header := by
  have hlength : ¬(header.toBytes ++ rest).length < size := by
    rw [List.length_append, length_toBytes]
    omega
  have hmagic : (header.toBytes ++ rest).wordD 0 = bundleMagic :=
    congrArg (Option.getD · 0) (Bytes.word?_ofWords (i := 0) rfl rest)
  have hcount : (header.toBytes ++ rest).wordD 4 = header.moduleCount :=
    congrArg (Option.getD · 0) (Bytes.word?_ofWords (i := 1) rfl rest)
  rw [parse, if_neg hlength, hmagic, if_neg (not_not.mpr rfl), hcount]

theorem readWords_ofWords (before : Bytes) (words : List UInt32) (rest : Bytes) :
    readWords (before ++ Bytes.ofWords words ++ rest) words.length before.length = some words := by
  induction words generalizing before with
  | nil => rfl
  | cons word others ih =>
      have hbytes : before ++ Bytes.ofWords (word :: others) ++ rest =
          before ++ Bytes.ofWord word ++ (Bytes.ofWords others ++ rest) := by
        simp only [Bytes.ofWords, List.flatMap_cons, List.append_assoc]
      have hothers := ih (before ++ Bytes.ofWord word)
      rw [List.length_append, Bytes.length_ofWord, List.append_assoc _ _ rest, ← hbytes]
        at hothers
      rw [List.length_cons, readWords, hothers, hbytes, Bytes.word?_append_ofWord]
      rfl

-- The offset table is read back if the header counts its entries.
theorem offsets_toBytes {header : Header} {table : List UInt32}
    (h : header.moduleCount.toNat = table.length) (rest : Bytes) :
    header.offsets (header.toBytes ++ Bytes.ofWords table ++ rest) = .ok table := by
  rw [offsets, h, ← length_toBytes header, readWords_ofWords]

end Loadable.Bundle.Header
