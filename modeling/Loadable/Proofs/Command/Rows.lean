import Loadable.Command.Build
import Loadable.Proofs.Text.Numeral

namespace Loadable.Command.Build

open Loadable.Text

-- What a row shows behind its label.
inductive Cell
  | word (value : UInt32)
  | count (value : UInt32)
  -- Where a part starts, and how much of it there is.
  | part (start size : UInt32) (unit : String)
  | text (content : String)

def Cell.Shows : Cell → String → Prop
  | .word value, shown => IsWord shown value
  | .count value, shown => IsCount shown value
  | .part start size unit, shown =>
      ∃ place number, IsWord place start ∧ IsCount number size ∧
        shown = place ++ " (" ++ number ++ " " ++ unit ++ ")"
  | .text content, shown => shown = content

-- A label at the left of nineteen columns, and behind them what it is the label of.
def IsRow (entry : String × Cell) (line : String) : Prop :=
  ∃ gap shown, entry.2.Shows shown ∧ entry.1.length + gap = 19 ∧
    line = "    " ++ entry.1 ++ String.ofList (List.replicate gap ' ') ++ shown ++ "\n"

-- What there is to tell about a header, in the order in which it is told.
def headerEntries (header : Format.Header) : List (String × Cell) :=
  [("entry offset", .word header.entryOffset),
    ("payload length", .count header.payloadLength),
    ("relocations", .part header.relocationOffset header.relocationCount "entries"),
    ("symbols", .part header.symbolOffset header.symbolCount "entries"),
    ("bss", .part header.bssStart header.bssLength "bytes"),
    ("entry point", .word header.entryPoint),
    ("total size", .count header.totalSize),
    ("crc32", .word header.crc32)]

-- A description comes first, unless there is none.
def moduleEntries (description : String) (header : Format.Header) : List (String × Cell) :=
  if description = "" then headerEntries header
  else ("description", .text description) :: headerEntries header

def IsListing (entries : List (String × Cell)) (text : String) : Prop :=
  ∃ lines, List.Forall₂ IsRow entries lines ∧ text = String.join lines

variable {label shown text : String} {cell : Cell} {others : List (String × Cell)}

theorem isRow_row (hlabel : label.length < 19) (hshown : cell.Shows shown) :
    IsRow (label, cell) (row label shown) := by
  have hgap : String.ofList (List.replicate (18 - label.length) ' ') ++ " " =
      String.ofList (List.replicate (19 - label.length) ' ') := by
    rw [show 19 - label.length = 18 - label.length + 1 by omega, List.replicate_succ',
      String.ofList_append]
  refine ⟨19 - label.length, shown, hshown, by dsimp only; omega, ?_⟩
  rw [← hgap]
  simp only [row, padRight, toString, String.append_assoc]

theorem isListing_row (hlabel : label.length < 19) (hshown : cell.Shows shown) :
    IsListing [(label, cell)] (row label shown) :=
  ⟨[row label shown], .cons (isRow_row hlabel hshown) .nil, by simp⟩

theorem IsListing.cons (hlabel : label.length < 19) (hshown : cell.Shows shown)
    (h : IsListing others text) : IsListing ((label, cell) :: others) (row label shown ++ text) := by
  obtain ⟨lines, hlines, rfl⟩ := h
  exact ⟨row label shown :: lines, .cons (isRow_row hlabel hshown) hlines, String.join_cons.symm⟩

theorem shows_table (start size : UInt32) (unit : String) :
    (Cell.part start size unit).Shows (table start size unit) := by
  refine ⟨hexWord start.toNat, toString size, isWord_hexWord start, isCount_toString size, ?_⟩
  simp only [table, toString]

theorem isListing_headerRows (header : Format.Header) :
    IsListing (headerEntries header) (headerRows header) := by
  simp only [headerRows, String.append_assoc]
  refine .cons (by decide) (isWord_hexWord _) ?_
  refine .cons (by decide) (isCount_toString _) ?_
  refine .cons (by decide) (shows_table ..) ?_
  refine .cons (by decide) (shows_table ..) ?_
  refine .cons (by decide) (shows_table ..) ?_
  refine .cons (by decide) (isWord_hexWord _) ?_
  refine .cons (by decide) (isCount_toString _) ?_
  exact isListing_row (by decide) (isWord_hexWord _)

theorem isListing_imageRows (image : Image) :
    IsListing (moduleEntries image.description image.header) (imageRows image) := by
  have hheader := isListing_headerRows image.header
  unfold moduleEntries imageRows
  split
  · rwa [String.empty_append]
  · exact hheader.cons (by decide) rfl

end Loadable.Command.Build
