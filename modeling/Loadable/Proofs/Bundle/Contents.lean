import Loadable.Proofs.Alignment
import Loadable.Proofs.Bundle.Publication
import Loadable.Proofs.Bundle.Header
import Mathlib.Algebra.BigOperators.Group.List.Basic

namespace Loadable.Bundle

open Loadable.Format

-- A module as it stands in a bundle, filled up with zeros.
def filled (content : Bytes) : Bytes :=
  content ++ Bytes.zeros (roundUp content.length 8 - content.length)

-- The room that modules take up in a bundle.
def span (contents : List Bytes) : Nat := (contents.map fun content => roundUp content.length 8).sum

-- Where modules start that stand one behind the other.
def starts (start : Nat) : List Bytes → List Nat
  | [] => []
  | content :: rest => start :: starts (start + roundUp content.length 8) rest

-- The size of header and offset table of a bundle.
def room (moduleCount : Nat) : Nat := 32 + 4 * moduleCount

def totalSize (contents : List Bytes) : Nat := room contents.length + span contents

@[simp] theorem span_append (contents others : List Bytes) :
    span (contents ++ others) = span contents + span others := by
  simp [span]

@[simp] theorem span_cons (content : Bytes) (rest : List Bytes) :
    span (content :: rest) = roundUp content.length 8 + span rest := by
  simp [span]

@[simp] theorem span_nil : span [] = 0 := rfl

theorem length_filled (content : Bytes) : (filled content).length = roundUp content.length 8 := by
  have hle := le_roundUp content.length (show 0 < 8 by decide)
  rw [filled, List.length_append, Bytes.length_zeros]
  omega

theorem length_flatMap_filled (contents : List Bytes) :
    (contents.flatMap filled).length = span contents := by
  induction contents with
  | nil => rfl
  | cons content rest ih =>
      rw [List.flatMap_cons, List.length_append, length_filled, ih, span_cons]

theorem starts_concat (start : Nat) (contents : List Bytes) (content : Bytes) :
    starts start (contents ++ [content]) = starts start contents ++ [start + span contents] := by
  induction contents generalizing start with
  | nil => simp [starts]
  | cons first rest ih =>
      simp only [List.cons_append, starts, ih, span_cons, Nat.add_assoc]

-- Whatever stands before them, modules are found where they start.
theorem forall₂_slice (before : Bytes) (contents : List Bytes) :
    List.Forall₂
      (fun start content =>
        (before ++ contents.flatMap filled).slice ⟨start, content.length⟩ = content)
      (starts before.length contents) contents := by
  induction contents generalizing before with
  | nil => exact List.Forall₂.nil
  | cons content rest ih =>
      have hbytes : before ++ (content :: rest).flatMap filled =
          before ++ filled content ++ rest.flatMap filled := by
        rw [List.flatMap_cons, List.append_assoc]
      have hrest := ih (before ++ filled content)
      rw [List.length_append, length_filled, ← hbytes] at hrest
      refine List.Forall₂.cons ?_ hrest
      have hcontent : before ++ (content :: rest).flatMap filled =
          before ++ content ++ (Bytes.zeros (roundUp content.length 8 - content.length) ++
            rest.flatMap filled) := by
        rw [hbytes, filled]
        simp only [List.append_assoc]
      exact Bytes.slice_of_eq_append hcontent rfl rfl

-- A line of the summary of a bundle is right about the file that it stands for.
structure PackedModule.Describes (packed : PackedModule) (file : String × Bytes) : Prop where
  path : packed.path = file.1
  length : packed.length.toNat = file.2.length
  paddedLength : packed.paddedLength.toNat = roundUp file.2.length 8

namespace Progress

variable {progress : Progress} {before : Nat} {done : List (String × Bytes)}

-- How far a run has come that has packed some files behind `before` bytes, in exact
-- numbers: nothing has wrapped.
structure Exact (progress : Progress) (before : Nat) (done : List (String × Bytes)) : Prop where
  modules : List.Forall₂ PackedModule.Describes progress.modules done
  offsets : progress.modules.map (fun packed => packed.offset.toNat) =
    starts before (done.map Prod.snd)
  position : progress.position.toNat = before + span (done.map Prod.snd)
  content : progress.content = Bytes.zeros before ++ (done.map Prod.snd).flatMap filled

theorem exact_start (moduleCount : UInt32) :
    (start moduleCount).Exact (room moduleCount.toNat) [] := by
  have hcount := moduleCount.toNat_lt
  have hroom : (Header.firstModuleOffset moduleCount).toNat = room moduleCount.toNat := by
    rw [Header.firstModuleOffset, UInt64.toNat_add, UInt64.toNat_mul, UInt32.toNat_toUInt64]
    simp only [UInt64.reduceToNat, room]
    omega
  refine ⟨List.Forall₂.nil, rfl, hroom, ?_⟩
  rw [start, hroom]
  exact (List.append_nil _).symm

theorem Exact.add (h : progress.Exact before done) (path : String) {content : Bytes}
    (hfits : before + span (done.map Prod.snd) + roundUp content.length 8 < UInt32.size) :
    (progress.add path content).Exact before (done ++ [(path, content)]) := by
  have hposition := h.position
  have hle := le_roundUp content.length (show 0 < 8 by decide)
  have hword : UInt32.size = 2 ^ 32 := rfl
  have hlength : (UInt64.ofNat content.length).toNat = content.length :=
    UInt64.toNat_ofNat_of_lt' (hle.trans_lt (by rw [UInt64.size]; omega))
  have hpadded : (pad64 (.ofNat content.length)).toNat = roundUp content.length 8 := by
    rw [toNat_pad64_of_lt, hlength]
    rw [hlength, UInt64.size]
    omega
  have hoffset : progress.position.toUInt32.toNat = progress.position.toNat := by
    rw [UInt64.toNat_toUInt32, hposition]
    exact Nat.mod_eq_of_lt (by omega)
  refine ⟨?_, ?_, ?_, ?_⟩
  · exact List.rel_append h.modules (.cons ⟨rfl, hlength, hpadded⟩ .nil)
  · simp only [Progress.add, List.map_append, h.offsets, List.map_cons, List.map_nil, hoffset,
      hposition, starts_concat]
  · simp only [Progress.add, UInt64.toNat_add, hpadded, hposition, List.map_append,
      List.map_cons, List.map_nil, span_append, span_cons, span_nil]
    omega
  · have hzeros : (pad64 (.ofNat content.length) - .ofNat content.length).toNat =
        roundUp content.length 8 - content.length := by
      rw [UInt64.toNat_sub_of_le, hpadded, hlength]
      rw [UInt64.le_iff_toNat_le, hpadded, hlength]
      exact hle
    simp only [Progress.add, h.content, hzeros, filled, List.map_append, List.map_cons,
      List.map_nil, List.flatMap_append, List.flatMap_cons, List.flatMap_nil, List.append_nil,
      List.append_assoc]

-- The position grows with every file and stays below that of the last one.
theorem Exact.addAll (h : progress.Exact before done) {files : List (String × Bytes)}
    (hfits : before + span ((done ++ files).map Prod.snd) < UInt32.size) :
    (progress.addAll files).Exact before (done ++ files) := by
  induction files generalizing progress done with
  | nil => rwa [List.append_nil]
  | cons file rest ih =>
      have hsplit : done ++ file :: rest = done ++ [file] ++ rest := by
        rw [List.append_assoc, List.singleton_append]
      rw [hsplit] at hfits ⊢
      refine ih (h.add file.1 ?_) hfits
      simp only [List.map_append, List.map_cons, List.map_nil, span_append, span_cons,
        span_nil] at hfits
      omega

-- Header and offset table just fill the room that was kept for them.
theorem Exact.finish (h : progress.Exact (room done.length) done) (moduleCount : UInt32) :
    progress.finish moduleCount =
      (Header.mk moduleCount).toBytes ++ Bytes.ofWords (progress.modules.map PackedModule.offset) ++
        (done.map Prod.snd).flatMap filled := by
  have hpatch : (Bytes.zeros (room done.length)).length =
      ((Header.mk moduleCount).toBytes ++
        Bytes.ofWords (progress.modules.map PackedModule.offset)).length := by
    rw [Bytes.length_zeros, List.length_append, Header.length_toBytes, Bytes.length_ofWords,
      List.length_map, h.modules.length_eq]
    rfl
  rw [Progress.finish, h.content]
  exact @Bytes.overwrite_append [] _ _ _ hpatch

end Progress

-- A bundle of some modules: its bytes, and what they say of themselves.
structure Holds (bundle : Bytes) (contents : List Bytes) (offsets : List UInt32) : Prop where
  places : offsets.map UInt32.toNat = starts (32 + 4 * contents.length) contents
  bytes : bundle =
    Bytes.ofWords ([bundleMagic, .ofNat contents.length] ++ List.replicate 6 0 ++ offsets) ++
      contents.flatMap filled
  header : ∃ header, Header.parse bundle = .ok header ∧
    header.moduleCount.toNat = contents.length ∧ header.offsets bundle = .ok offsets
  modules : List.Forall₂
    (fun offset content => bundle.slice ⟨offset.toNat, content.length⟩ = content) offsets contents

variable {tree : FileTree} {modules : List String} {files : List (String × Bytes)}

theorem toNat_length_of_totalSize
    (h : totalSize (files.map Prod.snd) < UInt32.size) :
    (UInt32.ofNat files.length).toNat = files.length := by
  apply UInt32.toNat_ofNat_of_lt'
  simp only [totalSize, room, List.length_map] at h
  omega

theorem exact_start_of_totalSize (h : totalSize (files.map Prod.snd) < UInt32.size) :
    (Progress.start (.ofNat files.length)).Exact (room files.length) [] := by
  have hstart := Progress.exact_start (UInt32.ofNat files.length)
  rwa [toNat_length_of_totalSize h] at hstart

theorem exact_packed (h : totalSize (files.map Prod.snd) < UInt32.size) :
    (packed files).Exact (room files.length) files := by
  have hstart := exact_start_of_totalSize h
  rw [totalSize, List.length_map] at h
  exact hstart.addAll h

theorem holds_bundleOf (h : totalSize (files.map Prod.snd) < UInt32.size) :
    Holds (bundleOf files) (files.map Prod.snd) ((packed files).modules.map PackedModule.offset) := by
  have hexact := exact_packed h
  have hcount := toNat_length_of_totalSize h
  have hbytes : bundleOf files = _ := hexact.finish _
  have hlength : (packed files).modules.length = files.length := hexact.modules.length_eq
  have hplaces : ((packed files).modules.map PackedModule.offset).map UInt32.toNat =
      starts (room files.length) (files.map Prod.snd) := by
    rw [List.map_map]
    exact hexact.offsets
  refine ⟨?_, ?_, ⟨⟨.ofNat files.length⟩, ?_, ?_, ?_⟩, ?_⟩
  · rw [List.length_map]
    exact hplaces
  · rw [hbytes, List.length_map, Header.toBytes]
    simp only [Bytes.ofWords, List.flatMap_append]
  · rw [hbytes, List.append_assoc, Header.parse_toBytes]
  · rw [List.length_map, hcount]
  · rw [hbytes, Header.offsets_toBytes]
    rw [List.length_map, hlength, hcount]
  · have hslices := forall₂_slice
      ((Header.mk (.ofNat files.length)).toBytes ++
        Bytes.ofWords ((packed files).modules.map PackedModule.offset)) (files.map Prod.snd)
    rw [← hbytes, List.length_append, Header.length_toBytes, Bytes.length_ofWords, List.length_map,
      hlength] at hslices
    have hroom : Header.size + 4 * files.length = room files.length := rfl
    rw [hroom, ← hplaces] at hslices
    exact List.forall₂_map_left_iff.mp hslices

theorem length_bundleOf (h : totalSize (files.map Prod.snd) < UInt32.size) :
    (bundleOf files).length = (packed files).position.toNat := by
  have hexact := exact_packed h
  have hbytes : bundleOf files = _ := hexact.finish _
  rw [hbytes, List.length_append, List.length_append, Header.length_toBytes, Bytes.length_ofWords,
    List.length_map, hexact.modules.length_eq, length_flatMap_filled, hexact.position]
  rfl

-- A file holds one content, so paths are read in one way only.
theorem Reads.eq {others : List (String × Bytes)} (h : Reads tree modules files)
    (hothers : Reads tree modules others) : files = others := by
  have hdetermined : ∀ {files : List (String × Bytes)}, Reads tree modules files →
      files.map (fun file => (file.1, Except.ok file.2)) =
        modules.map fun path => (path, tree.read path) := by
    rintro files ⟨rfl, hfiles⟩
    rw [List.map_map]
    exact List.map_congr_left fun file hmem => by rw [Function.comp_apply, hfiles file hmem]
  have hinjective : Function.Injective fun file : String × Bytes =>
      (file.1, (Except.ok file.2 : Except OsError Bytes)) := by
    rintro ⟨path, content⟩ ⟨path', content'⟩ heq
    simpa using heq
  exact hinjective.list_map ((hdetermined h).trans (hdetermined hothers).symm)

-- Nothing is lost or mixed up in a bundle: its bytes hold every module, the offset table
-- leads to them, and the summary and the reports agree with the file.
theorem bundle_holds_its_modules (tree : FileTree) (modules : List String) (output : String)
    (verify : Bool) (files : List (String × Bytes)) (hreads : Reads tree modules files)
    (hsize : totalSize (files.map Prod.snd) < UInt32.size)
    (hpack : (pack tree modules output verify).result.isOk) :
    let packing := pack tree modules output verify
    ∃ summary bundle, packing.result = .ok summary ∧ packing.tree.read output = .ok bundle ∧
      Holds bundle (files.map Prod.snd) summary.offsets ∧
      List.Forall₂ PackedModule.Describes summary.modules files ∧
      summary.totalSize.toNat = bundle.length ∧
      packing.reports modules.length =
        (List.range modules.length).map fun index => (index + 1, modules.length) := by
  intro packing
  rcases pack_cases tree modules output verify with
    ⟨progress, error, herror, _⟩ | ⟨found, final, hfound, hreplaced, hok⟩
  · rw [herror] at hpack
    cases hpack
  · obtain rfl := hreads.eq hfound
    have hexact := exact_packed hsize
    have hdone : (packed files).modules.length = modules.length := by
      rw [hexact.modules.length_eq, ← hreads.1, List.length_map]
    have hreported : (packed files).reported = _ := (Progress.counted_start _).addAll files
    have hpacking : packing = _ := hok
    rw [hpacking]
    refine ⟨⟨output, _, _⟩, bundleOf files, rfl, hreplaced.read, holds_bundleOf hsize,
      hexact.modules, (length_bundleOf hsize).symm, ?_⟩
    simp only [Packing.reports, hreported]
    rw [← packed, hdone, List.map_map]
    rfl

-- An empty file, one that is listed twice, and one that the bundle takes the place of.
def sampleFiles : FileTree := ⟨[(["odd"], .file [1, 2, 3]), (["empty"], .file [])], []⟩

theorem sample_bundle_holds_its_modules :
    let packing := pack sampleFiles ["odd", "empty", "odd"] "odd" false
    ∃ summary bundle, packing.result = .ok summary ∧ packing.tree.read "odd" = .ok bundle ∧
      Holds bundle [[1, 2, 3], [], [1, 2, 3]] summary.offsets ∧
      packing.reports 3 = [(1, 3), (2, 3), (3, 3)] := by
  intro packing
  have hreads : Reads sampleFiles ["odd", "empty", "odd"]
      [("odd", [1, 2, 3]), ("empty", []), ("odd", [1, 2, 3])] := ⟨rfl, by decide +kernel⟩
  have hok : (pack sampleFiles ["odd", "empty", "odd"] "odd" false).result.isOk := by
    decide +kernel
  obtain ⟨summary, bundle, hsummary, hbundle, hholds, _, _, hreports⟩ :=
    bundle_holds_its_modules _ _ _ _ _ hreads (by decide) hok
  exact ⟨summary, bundle, hsummary, hbundle, hholds, hreports⟩

end Loadable.Bundle
