import Loadable.Text.Utf8
import Mathlib.Data.List.Basic

namespace Loadable.Text.Utf8

-- Bytes that may follow a leading byte, the first of them in a range of its own.
def Continues : UInt8 → UInt8 → Bytes → Prop
  | _, _, [] => True
  | low, high, byte :: rest => (low ≤ byte ∧ byte ≤ high) ∧ Continues 0x80 0xBF rest

-- The bits that the following bytes add.
def gather (bits : Nat) (tails : Bytes) : Nat :=
  tails.foldl (fun bits byte => bits * 64 + byte.toNat % 64) bits

theorem Continues.take {low high : UInt8} {tails : Bytes} (h : Continues low high tails)
    (count : Nat) : Continues low high (tails.take count) := by
  induction tails generalizing low high count with
  | nil => rwa [List.take_nil]
  | cons byte rest ih =>
      cases count with
      | zero => trivial
      | succ count => exact ⟨h.1, ih h.2 count⟩

theorem collect_append {bits : Nat} {low high : UInt8} {tails : Bytes}
    (h : Continues low high tails) (rest : Bytes) :
    collect bits low high tails.length (tails ++ rest) = (some (gather bits tails), rest) := by
  induction tails generalizing bits low high with
  | nil => rw [List.length_nil, collect]; rfl
  | cons byte others ih =>
      rw [List.length_cons, List.cons_append, collect, if_pos h.1, ih h.2]
      rfl

-- A character that the end of the text cuts off.
theorem collect_short {bits count : Nat} {low high : UInt8} {tails : Bytes}
    (h : Continues low high tails) (hshort : tails.length < count) :
    collect bits low high count tails = (none, []) := by
  induction tails generalizing bits low high count with
  | nil =>
      obtain ⟨count, rfl⟩ := Nat.exists_eq_succ_of_ne_zero (Nat.ne_of_gt hshort)
      rw [collect]
  | cons byte rest ih =>
      obtain ⟨count, rfl⟩ := Nat.exists_eq_succ_of_ne_zero (Nat.ne_zero_of_lt hshort)
      rw [collect, if_pos h.1]
      exact ih h.2 (Nat.lt_of_succ_lt_succ hshort)

-- The bytes of a value, as the decoder takes them apart.
structure Spelled (value : Nat) (lead : Lead) (first : UInt8) (tails : Bytes) : Prop where
  announced : Lead.of? first = some lead
  count : tails.length = lead.tails
  continues : Continues lead.low lead.high tails
  gathered : gather lead.bits tails = value

theorem Lead.of?_ofNat {number : Nat} (h : number < 256) :
    Lead.of? (.ofNat number) =
      if number < 0x80 then some ⟨number, 0, 0x80, 0xBF⟩
      else if number < 0xC2 then none
      else if number < 0xE0 then some ⟨number - 0xC0, 1, 0x80, 0xBF⟩
      else if number = 0xE0 then some ⟨0, 2, 0xA0, 0xBF⟩
      else if number = 0xED then some ⟨13, 2, 0x80, 0x9F⟩
      else if number < 0xF0 then some ⟨number - 0xE0, 2, 0x80, 0xBF⟩
      else if number = 0xF0 then some ⟨0, 3, 0x90, 0xBF⟩
      else if number < 0xF4 then some ⟨number - 0xF0, 3, 0x80, 0xBF⟩
      else if number = 0xF4 then some ⟨4, 3, 0x80, 0x8F⟩
      else none := by
  have hexact : (UInt8.ofNat number).toNat = number := UInt8.toNat_ofNat_of_lt' h
  simp only [Lead.of?, UInt8.lt_iff_toNat_lt, ← UInt8.toNat_inj, hexact]
  rfl

theorem continues_ofNat {low high : UInt8} {digit : Nat} {rest : Bytes} (h : digit < 64)
    (hlow : low.toNat ≤ digit + 128) (hhigh : digit + 128 ≤ high.toNat)
    (hrest : Continues 0x80 0xBF rest) : Continues low high (.ofNat (digit + 128) :: rest) := by
  have hexact : (UInt8.ofNat (digit + 128)).toNat = digit + 128 :=
    UInt8.toNat_ofNat_of_lt' (Nat.lt_of_lt_of_le (Nat.add_lt_add_right h 128) (by decide))
  refine ⟨⟨?_, ?_⟩, hrest⟩
  · rwa [UInt8.le_iff_toNat_le, hexact]
  · rwa [UInt8.le_iff_toNat_le, hexact]

theorem gather_ofNat {bits digit : Nat} {rest : Bytes} (h : digit < 64) :
    gather bits (.ofNat (digit + 128) :: rest) = gather (bits * 64 + digit) rest := by
  have hexact : (UInt8.ofNat (digit + 128)).toNat % 64 = digit := by
    rw [UInt8.toNat_ofNat']
    omega
  rw [gather, List.foldl_cons, hexact]
  rfl

-- The ranges of the second byte keep out what is no character and what has a shorter form.
theorem exists_lead_three {value : Nat} (hlow : 0x7FF < value) (hhigh : value ≤ 0xFFFF)
    (hvalid : value < 0xD800 ∨ 0xDFFF < value) :
    ∃ low high : UInt8, Lead.of? (.ofNat (value / 4096 % 16 + 224)) =
        some ⟨value / 4096, 2, low, high⟩ ∧
      low.toNat ≤ value / 64 % 64 + 128 ∧ value / 64 % 64 + 128 ≤ high.toNat := by
  rw [Lead.of?_ofNat (by omega), if_neg (by omega), if_neg (by omega), if_neg (by omega)]
  by_cases hfirst : value / 4096 = 0
  · rw [if_pos (by omega), hfirst]
    refine ⟨0xA0, 0xBF, rfl, ?_, ?_⟩ <;> simp only [UInt8.reduceToNat] <;> omega
  · rw [if_neg (by omega)]
    by_cases hsurrogates : value / 4096 = 13
    · rw [if_pos (by omega), hsurrogates]
      refine ⟨0x80, 0x9F, rfl, ?_, ?_⟩ <;> simp only [UInt8.reduceToNat] <;> omega
    · have hbits : value / 4096 % 16 + 224 - 0xE0 = value / 4096 := by omega
      rw [if_neg (by omega), if_pos (by omega), hbits]
      refine ⟨0x80, 0xBF, rfl, ?_, ?_⟩ <;> simp only [UInt8.reduceToNat] <;> omega

theorem exists_lead_four {value : Nat} (hlow : 0xFFFF < value) (hhigh : value < 0x110000) :
    ∃ low high : UInt8, Lead.of? (.ofNat (value / 262144 % 8 + 240)) =
        some ⟨value / 262144, 3, low, high⟩ ∧
      low.toNat ≤ value / 4096 % 64 + 128 ∧ value / 4096 % 64 + 128 ≤ high.toNat := by
  rw [Lead.of?_ofNat (by omega), if_neg (by omega), if_neg (by omega), if_neg (by omega),
    if_neg (by omega), if_neg (by omega), if_neg (by omega)]
  by_cases hfirst : value / 262144 = 0
  · rw [if_pos (by omega), hfirst]
    refine ⟨0x90, 0xBF, rfl, ?_, ?_⟩ <;> simp only [UInt8.reduceToNat] <;> omega
  · rw [if_neg (by omega)]
    by_cases hlast : value / 262144 = 4
    · rw [if_neg (by omega), if_pos (by omega), hlast]
      refine ⟨0x80, 0x8F, rfl, ?_, ?_⟩ <;> simp only [UInt8.reduceToNat] <;> omega
    · have hbits : value / 262144 % 8 + 240 - 0xF0 = value / 262144 := by omega
      rw [if_pos (by omega), hbits]
      refine ⟨0x80, 0xBF, rfl, ?_, ?_⟩ <;> simp only [UInt8.reduceToNat] <;> omega

theorem continues_digit {digit : Nat} {rest : Bytes} (h : digit < 64)
    (hrest : Continues 0x80 0xBF rest) :
    Continues 0x80 0xBF (.ofNat (digit + 128) :: rest) :=
  continues_ofNat h (Nat.le_add_left 128 digit) (Nat.le_of_lt_succ (Nat.add_lt_add_right h 128))
    hrest

theorem digit_lt (value : Nat) : value % 64 < 64 := Nat.mod_lt value (by decide)

theorem exists_spelled_one {value : Nat} (h : value ≤ 0x7F) :
    ∃ lead, Spelled value lead (.ofNat value) [] := by
  have hlead : Lead.of? (.ofNat value) = some ⟨value, 0, 0x80, 0xBF⟩ := by
    rw [Lead.of?_ofNat (by omega), if_pos (by omega)]
  exact ⟨_, hlead, rfl, trivial, rfl⟩

theorem exists_spelled_two {value : Nat} (hlow : 0x7F < value) (hhigh : value ≤ 0x7FF) :
    ∃ lead, Spelled value lead (.ofNat (value / 64 % 32 + 192)) [.ofNat (value % 64 + 128)] := by
  have hlead : Lead.of? (.ofNat (value / 64 % 32 + 192)) = some ⟨value / 64, 1, 0x80, 0xBF⟩ := by
    have hbits : value / 64 % 32 + 192 - 0xC0 = value / 64 := by omega
    rw [Lead.of?_ofNat (by omega), if_neg (by omega), if_neg (by omega), if_pos (by omega), hbits]
  refine ⟨_, hlead, rfl, continues_digit (digit_lt _) trivial, ?_⟩
  rw [gather_ofNat (digit_lt _)]
  show value / 64 * 64 + value % 64 = value
  omega

theorem exists_spelled_three {value : Nat} (hlow : 0x7FF < value) (hhigh : value ≤ 0xFFFF)
    (hvalid : value < 0xD800 ∨ 0xDFFF < value) :
    ∃ lead, Spelled value lead (.ofNat (value / 4096 % 16 + 224))
      [.ofNat (value / 64 % 64 + 128), .ofNat (value % 64 + 128)] := by
  obtain ⟨low, high, hlead, hlow, hhigh⟩ := exists_lead_three hlow hhigh hvalid
  refine ⟨_, hlead, rfl, continues_ofNat (digit_lt _) hlow hhigh
    (continues_digit (digit_lt _) trivial), ?_⟩
  rw [gather_ofNat (digit_lt _), gather_ofNat (digit_lt _)]
  show (value / 4096 * 64 + value / 64 % 64) * 64 + value % 64 = value
  omega

theorem exists_spelled_four {value : Nat} (hlow : 0xFFFF < value) (hhigh : value < 0x110000) :
    ∃ lead, Spelled value lead (.ofNat (value / 262144 % 8 + 240))
      [.ofNat (value / 4096 % 64 + 128), .ofNat (value / 64 % 64 + 128),
        .ofNat (value % 64 + 128)] := by
  obtain ⟨low, high, hlead, hlow, hhigh⟩ := exists_lead_four hlow hhigh
  refine ⟨_, hlead, rfl, continues_ofNat (digit_lt _) hlow hhigh
    (continues_digit (digit_lt _) (continues_digit (digit_lt _) trivial)), ?_⟩
  rw [gather_ofNat (digit_lt _), gather_ofNat (digit_lt _), gather_ofNat (digit_lt _)]
  show ((value / 262144 * 64 + value / 4096 % 64) * 64 + value / 64 % 64) * 64 + value % 64 = value
  omega

theorem exists_spelled (character : Char) :
    ∃ lead first tails, String.utf8EncodeChar character = first :: tails ∧
      Spelled character.toNat lead first tails := by
  have hvalid : character.toNat < 0xD800 ∨
      0xDFFF < character.toNat ∧ character.toNat < 0x110000 := character.valid
  have hbytes := String.utf8EncodeChar.eq_def character
  have hvalue : character.val.toNat = character.toNat := rfl
  rw [hvalue] at hbytes
  by_cases hone : character.toNat ≤ 0x7F
  · obtain ⟨lead, hspelled⟩ := exists_spelled_one hone
    exact ⟨lead, _, _, hbytes.trans (if_pos hone), hspelled⟩
  rw [if_neg hone] at hbytes
  by_cases htwo : character.toNat ≤ 0x7FF
  · obtain ⟨lead, hspelled⟩ := exists_spelled_two (Nat.lt_of_not_le hone) htwo
    exact ⟨lead, _, _, hbytes.trans (if_pos htwo), hspelled⟩
  rw [if_neg htwo] at hbytes
  by_cases hthree : character.toNat ≤ 0xFFFF
  · obtain ⟨lead, hspelled⟩ :=
      exists_spelled_three (Nat.lt_of_not_le htwo) hthree (hvalid.imp id And.left)
    exact ⟨lead, _, _, hbytes.trans (if_pos hthree), hspelled⟩
  · obtain ⟨lead, hspelled⟩ := exists_spelled_four (Nat.lt_of_not_le hthree) (by omega)
    exact ⟨lead, _, _, hbytes.trans (if_neg hthree), hspelled⟩

-- Characters as bytes

def spell (text : List Char) : Bytes := text.flatMap String.utf8EncodeChar

-- How many bytes a text takes.
def span (text : List Char) : Nat := (spell text).length

theorem spell_cons (character : Char) (rest : List Char) :
    spell (character :: rest) = String.utf8EncodeChar character ++ spell rest :=
  List.flatMap_cons

theorem span_cons (character : Char) (rest : List Char) :
    span (character :: rest) = (String.utf8EncodeChar character).length + span rest := by
  rw [span, spell_cons, List.length_append, span]

theorem span_toList (text : String) : span text.toList = text.utf8ByteSize := by
  have hbytes : text.toByteArray = (spell text.toList).toByteArray := by
    conv_lhs => rw [← @String.ofList_toList text]
    exact String.toByteArray_ofList
  rw [String.utf8ByteSize, hbytes, List.size_toByteArray, span]

theorem scan_nil : scan [] = [] := by rw [scan]

theorem scan_append (character : Char) (rest : Bytes) :
    scan (String.utf8EncodeChar character ++ rest) = some character :: scan rest := by
  obtain ⟨lead, first, tails, hbytes, h⟩ := exists_spelled character
  rw [hbytes, List.cons_append, scan, h.announced]
  simp only [← h.count, collect_append h.continues, h.gathered, Option.map_some, Char.ofNat_toNat]

-- The start of a character is one stretch that is none.
theorem scan_take (character : Char) {count : Nat} (hpos : 0 < count)
    (hcut : count < (String.utf8EncodeChar character).length) :
    scan ((String.utf8EncodeChar character).take count) = [none] := by
  obtain ⟨lead, first, tails, hbytes, h⟩ := exists_spelled character
  obtain ⟨count, rfl⟩ := Nat.exists_eq_succ_of_ne_zero (Nat.ne_of_gt hpos)
  rw [hbytes, List.length_cons] at hcut
  have hshort : (tails.take count).length < lead.tails := by
    rw [List.length_take, ← h.count]
    omega
  rw [hbytes, List.take_succ_cons, scan, h.announced]
  simp only [collect_short (h.continues.take count) hshort, Option.map_none, scan_nil]

theorem scan_spell_append (text : List Char) (rest : Bytes) :
    scan (spell text ++ rest) = text.map some ++ scan rest := by
  induction text with
  | nil => rfl
  | cons character others ih =>
      rw [spell_cons, List.append_assoc, scan_append, ih, List.map_cons, List.cons_append]

theorem decodeLossy_spell (text : List Char) : decodeLossy (spell text) = String.ofList text := by
  have hscan := scan_spell_append text []
  rw [List.append_nil, scan_nil, List.append_nil] at hscan
  rw [decodeLossy, hscan, List.map_map]
  congr 1
  exact List.map_id text

-- Zero bytes

theorem zero_ne_ofNat {number : Nat} (hpos : 0 < number) (hlt : number < 256) :
    (0 : UInt8) ≠ .ofNat number := by
  intro hzero
  have hnumber := congrArg UInt8.toNat hzero
  rw [UInt8.toNat_ofNat_of_lt' hlt] at hnumber
  exact Nat.ne_of_lt hpos hnumber

-- Only the bytes of the zero character have a zero byte among them.
theorem eq_nul_of_zero_mem {character : Char} (h : 0 ∈ String.utf8EncodeChar character) :
    character = '\x00' := by
  have hvalid : character.val.toNat < 0x110000 := character.valid.elim
    (fun hlow => Nat.lt_trans hlow (by decide)) And.right
  rw [String.utf8EncodeChar.eq_def] at h
  by_cases hone : character.val.toNat ≤ 0x7F
  · rw [if_pos hone, List.mem_singleton] at h
    by_contra hne
    have hpos : character.val.toNat ≠ 0 := fun hzero =>
      hne (Char.ext (UInt32.toNat.inj hzero))
    exact zero_ne_ofNat (Nat.pos_of_ne_zero hpos) (by omega) h
  · exfalso
    rw [if_neg hone] at h
    revert h
    generalize character.val.toNat = value at hvalid hone
    split
    · simp only [List.mem_cons, List.not_mem_nil, or_false]
      rintro (h | h) <;> exact zero_ne_ofNat (by omega) (by omega) h
    split
    · simp only [List.mem_cons, List.not_mem_nil, or_false]
      rintro (h | h | h) <;> exact zero_ne_ofNat (by omega) (by omega) h
    · simp only [List.mem_cons, List.not_mem_nil, or_false]
      rintro (h | h | h | h) <;> exact zero_ne_ofNat (by omega) (by omega) h

theorem takeWhile_spell (text : List Char) :
    (spell text).takeWhile (· ≠ 0) = spell (text.takeWhile (· ≠ '\x00')) := by
  induction text with
  | nil => rfl
  | cons character rest ih =>
      rw [spell_cons]
      by_cases hnul : character = '\x00'
      · subst hnul
        rfl
      · have hbytes : ∀ byte ∈ String.utf8EncodeChar character, decide (byte ≠ 0) := by
          intro byte hmem
          rw [decide_eq_true_iff]
          rintro rfl
          exact hnul (eq_nul_of_zero_mem hmem)
        rw [List.takeWhile_append_of_pos hbytes, ih, List.takeWhile_cons_of_pos (by simpa using hnul),
          spell_cons]

-- Texts that are cut

-- The characters that lie within a number of bytes as a whole.
def wholeWithin (limit : Nat) : List Char → List Char
  | [] => []
  | character :: rest =>
    let length := (String.utf8EncodeChar character).length
    if length ≤ limit then character :: wholeWithin (limit - length) rest else []

structure LongestWithin (limit : Nat) (text kept : List Char) : Prop where
  initial : kept <+: text
  fits : span kept ≤ limit
  longest : ∀ other, other <+: text → span other ≤ limit → other <+: kept

theorem LongestWithin.eq {limit : Nat} {text kept other : List Char}
    (h : LongestWithin limit text kept) (hother : LongestWithin limit text other) :
    kept = other :=
  (hother.longest kept h.initial h.fits).eq_of_length_le
    (h.longest other hother.initial hother.fits).length_le

theorem longestWithin_wholeWithin (limit : Nat) (text : List Char) :
    LongestWithin limit text (wholeWithin limit text) := by
  induction text generalizing limit with
  | nil => exact ⟨List.nil_prefix, Nat.zero_le _, fun _ hother _ => hother⟩
  | cons character rest ih =>
      rw [wholeWithin]
      split
      next hroom =>
        obtain ⟨hinitial, hfits, hlongest⟩ := ih (limit - (String.utf8EncodeChar character).length)
        refine ⟨List.cons_prefix_cons.mpr ⟨rfl, hinitial⟩, ?_, ?_⟩
        · rw [span_cons]
          omega
        · intro other hother hspan
          cases other with
          | nil => exact List.nil_prefix
          | cons first others =>
              obtain ⟨rfl, hothers⟩ := List.cons_prefix_cons.mp hother
              rw [span_cons] at hspan
              exact List.cons_prefix_cons.mpr ⟨rfl, hlongest others hothers (by omega)⟩
      next hlong =>
        refine ⟨List.nil_prefix, Nat.zero_le _, ?_⟩
        intro other hother hspan
        cases other with
        | nil => exact List.nil_prefix
        | cons first others =>
            obtain ⟨rfl, _⟩ := List.cons_prefix_cons.mp hother
            rw [span_cons] at hspan
            omega

-- A cut leaves whole characters, and behind them at most one that is not whole.
theorem scan_take_spell {limit : Nat} {text : List Char} (h : limit < span text) :
    scan ((spell text).take limit) = (wholeWithin limit text).map some ++
      if span (wholeWithin limit text) < limit then [none] else [] := by
  induction text generalizing limit with
  | nil => exact absurd h (Nat.not_lt_zero _)
  | cons character rest ih =>
      rw [span_cons] at h
      rw [spell_cons, wholeWithin, List.take_append]
      split
      next hroom =>
        rw [List.take_of_length_le hroom, scan_append, ih (by omega), List.map_cons,
          List.cons_append, span_cons]
        congr 3
        rw [eq_iff_iff]
        omega
      next hlong =>
        have hrest : limit - (String.utf8EncodeChar character).length = 0 := by omega
        rw [hrest, List.take_zero, List.append_nil, List.map_nil, List.nil_append]
        have hnone : span [] = 0 := rfl
        rw [hnone]
        by_cases hpos : 0 < limit
        · rw [scan_take character hpos (by omega), if_pos hpos]
        · rw [Nat.eq_zero_of_not_pos hpos, List.take_zero, scan_nil, if_neg (Nat.lt_irrefl 0)]

theorem decodeLossy_take_spell {limit : Nat} {text : List Char} (h : limit < span text) :
    decodeLossy ((spell text).take limit) = String.ofList (wholeWithin limit text ++
      if span (wholeWithin limit text) < limit then [replacement] else []) := by
  rw [decodeLossy, scan_take_spell h, List.map_append, List.map_map]
  congr 2
  · exact List.map_id _
  · split <;> rfl

end Loadable.Text.Utf8
