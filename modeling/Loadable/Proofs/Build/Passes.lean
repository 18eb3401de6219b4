import Loadable.Build.Assembler
import Loadable.Proofs.Build.Layout
import Loadable.Proofs.Build.Stream
import Loadable.Proofs.Format.Header

namespace Loadable

open Loadable.Format

namespace Stream

-- A growing stream that stands at the end of what was written to it.
def ofContent (content : Bytes) : Stream := { content, position := content.length }

theorem take_ofContent (content bytes : Bytes) :
    (ofContent content).take bytes = ofContent (content ++ bytes) := by
  have hroom : (ofContent content).room bytes.length = bytes.length := rfl
  simp only [take, hroom]
  split
  next hnone =>
    have hnil : bytes = [] := List.length_eq_zero_iff.mp hnone
    rw [hnil, List.append_nil]
  next => simp [ofContent, Bytes.overwrite, Bytes.zeros]

end Stream

namespace Assembler

def descriptionRegion (assembler : Assembler) : Bytes :=
  assembler.description.bytes ++
    Bytes.zeros (assembler.layout.paddedDescriptionLength -
      assembler.layout.descriptionLength).toNat

def payloadRegion (assembler : Assembler) : Bytes :=
  assembler.payload ++
    Bytes.zeros (assembler.layout.paddedPayloadLength - assembler.layout.payloadLength).toNat

-- What the first pass writes behind the header.
def body (assembler : Assembler) : Bytes :=
  assembler.descriptionRegion ++ assembler.payloadRegion ++ assembler.relocations.toBytes ++
    assembler.symbols.toBytes

theorem writeHeader_eq (header : Header) : writeHeader header = Stream.write header.toBytes :=
  Stream.forM_write _

-- The header and all that follows it might as well be written in one piece each.
theorem writeSections_eq (assembler : Assembler) :
    assembler.writeSections = (do
      Stream.write assembler.header.toBytes
      let position := (← get).position
      if position ≠ Header.size then throw (.headerSizeMismatch Header.size position)
      Stream.write assembler.body
      return (← get).position) := by
  simp only [writeSections, writeHeader_eq, writePadding, body, descriptionRegion, payloadRegion,
    Stream.write_append, bind_assoc]

-- The ways in which the first pass can end: without room for the header, behind the start of
-- the stream, without room for the rest, or with all of it written.
theorem run_writeSections_eq (assembler : Assembler) (stream : Stream) :
    let header := assembler.header.toBytes
    let image := header ++ assembler.body
    assembler.writeSections.run stream =
      if stream.room Header.size < Header.size then
        .error (.io "failed to write whole buffer") (stream.take header)
      else if stream.position ≠ 0 then
        .error (.headerSizeMismatch Header.size (stream.position + Header.size))
          (stream.take header)
      else if stream.room image.length < image.length then
        .error (.io "failed to write whole buffer") (stream.take image)
      else .ok image.length (stream.take image) := by
  intro header image
  have hheader : header.length = Header.size := assembler.header.length_toBytes
  rw [writeSections_eq, ← hheader]
  by_cases hroom : stream.room header.length < header.length
  · rw [Stream.run_write_bind_of_full hroom, if_pos hroom]
  have hall := Stream.room_eq_of_not_lt hroom
  rw [Stream.run_write_bind_of_room hall, if_neg hroom, EStateM.run_bind, Stream.run_get]
  dsimp only
  rw [Stream.position_take, hall]
  by_cases hstart : stream.position = 0
  · have himage : image.length = header.length + assembler.body.length := List.length_append
    have hbody := Stream.room_take hall assembler.body.length
    rw [← himage] at hbody
    rw [if_neg (by omega), if_neg (not_not.mpr hstart)]
    by_cases hrest : (stream.take header).room assembler.body.length < assembler.body.length
    · rw [Stream.run_write_bind_of_full hrest, if_pos (by omega), Stream.take_append hall]
    · have hwhole := Stream.room_eq_of_not_lt hrest
      rw [Stream.run_write_bind_of_room hwhole, if_neg (by omega), ← Stream.take_append hall,
        EStateM.run_bind, Stream.run_get]
      dsimp only
      rw [Stream.position_take, hstart, Nat.zero_add, ← hbody, hwhole, ← himage]
      rfl
  · rw [if_pos (by omega), if_pos hstart]
    rfl

-- At the start of a stream the position is where it should be, and only room can be missing.
theorem run_writeSections_of_start (assembler : Assembler) {stream : Stream}
    (h : stream.position = 0) :
    let image := assembler.header.toBytes ++ assembler.body
    assembler.writeSections.run stream =
      if stream.room image.length < image.length then
        .error (.io "failed to write whole buffer") (stream.take image)
      else .ok image.length (stream.take image) := by
  intro image
  have hheader : assembler.header.toBytes.length = Header.size := assembler.header.length_toBytes
  have himage : image.length = Header.size + assembler.body.length := by
    rw [List.length_append, hheader]
  rw [run_writeSections_eq]
  by_cases hroom : stream.room Header.size < Header.size
  · have hrest : stream.room image.length < image.length := by
      rw [himage, Stream.room_add_of_lt hroom]
      omega
    rw [if_pos hroom, if_pos hrest, Stream.take_append_of_lt (by rwa [hheader])]
  · rw [if_neg hroom, if_neg (not_not.mpr h)]

-- The first pass cannot fail. The header it writes has no total size and no checksum yet.
theorem run_writeSections (assembler : Assembler) :
    assembler.writeSections.run {} =
      .ok (assembler.header.toBytes ++ assembler.body).length
        (.ofContent (assembler.header.toBytes ++ assembler.body)) := by
  have hgrows : ∀ count, ¬({} : Stream).room count < count := fun count => Nat.lt_irrefl count
  have hempty : ({} : Stream) = .ofContent [] := rfl
  rw [run_writeSections_of_start assembler rfl, if_neg (hgrows _), hempty, Stream.take_ofContent,
    List.nil_append]

-- The header as the second pass leaves it.
def finished (assembler : Assembler) : Header :=
  Header.stamped { assembler.header with totalSize := assembler.layout.totalSize } assembler.body

theorem finalize_toBytes (header : Header) (rest : Bytes) (totalSize : UInt32) :
    let sized := { header with totalSize }
    finalize (header.toBytes ++ rest) totalSize =
      ((sized.stamped rest).crc32, (sized.stamped rest).toBytes ++ rest) := by
  intro sized
  have hcrc := sized.overwrite_crc32 (moduleChecksum (sized.toBytes ++ rest)) rest
  simp only [finalize, header.overwrite_totalSize totalSize rest]
  rw [hcrc]
  rfl

-- The size that was laid out is the one that is measured.
theorem assembleWith_eq {assembler : Assembler}
    (h : assembler.layout.totalSize.toNat = Header.size + assembler.body.length) :
    assembler.assembleWith =
      .ok (assembler.finished, assembler.finished.toBytes ++ assembler.body) := by
  have hlength : (assembler.header.toBytes ++ assembler.body).length =
      Header.size + assembler.body.length := by
    rw [List.length_append, Header.length_toBytes]
  have hmeasured : narrow "module size" (assembler.header.toBytes ++ assembler.body).length =
      .ok assembler.layout.totalSize := (narrow_eq_ok_iff _ _ _).mpr (h.trans hlength.symm)
  unfold assembleWith
  rw [run_writeSections]
  simp only [Stream.ofContent]
  rw [hmeasured]
  simp only [ok_bind]
  rw [finalize_toBytes]
  exact congrArg Except.ok (Prod.ext rfl rfl)

end Assembler

end Loadable
