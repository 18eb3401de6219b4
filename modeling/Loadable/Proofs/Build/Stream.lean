import Loadable.Build.Stream
import Loadable.Proofs.Bytes

namespace Loadable.Stream

variable {α : Type} {stream : Stream} {a b bytes : Bytes}

theorem run_get (stream : Stream) : (get : Write Stream).run stream = .ok stream stream := rfl

theorem room_le (stream : Stream) (count : Nat) : stream.room count ≤ count := by
  unfold room
  split
  · exact Nat.le_refl _
  · exact Nat.min_le_left _ _

-- A stream that is full takes the same of a longer string.
theorem room_add_of_lt {count : Nat} (h : stream.room count < count) (more : Nat) :
    stream.room (count + more) = stream.room count := by
  unfold room at *
  split
  next hgrows =>
    rw [if_pos hgrows] at h
    omega
  next hfixed =>
    rw [if_neg hfixed] at h
    omega

@[simp] theorem growable_take (stream : Stream) (bytes : Bytes) :
    (stream.take bytes).growable = stream.growable := by
  unfold take
  dsimp only
  split <;> rfl

@[simp] theorem position_take (stream : Stream) (bytes : Bytes) :
    (stream.take bytes).position = stream.position + stream.room bytes.length := by
  unfold take
  dsimp only
  split
  next hnone => rw [hnone, Nat.add_zero]
  next => rfl

-- What a stream takes of a string, and nothing at all if there is no room.
theorem content_take (stream : Stream) (bytes : Bytes) :
    (stream.take bytes).content =
      if stream.room bytes.length = 0 then stream.content
      else stream.content.overwrite stream.position (bytes.take (stream.room bytes.length)) := by
  unfold take
  dsimp only
  split <;> rfl

-- A stream after it took the first `count` bytes of a string. Only a growing stream can take
-- something behind its end, and what it skips then reads zero.
structure Took (before : Stream) (bytes : Bytes) (count : Nat) (after : Stream) : Prop where
  growable : after.growable = before.growable
  position : after.position = before.position + count
  content : ∀ i, after.content[i]? =
    if before.position ≤ i ∧ i < before.position + count then bytes[i - before.position]?
    else if before.growable ∧ before.content.length ≤ i ∧ i < before.position then some 0
    else before.content[i]?

theorem took_take (stream : Stream) (hsome : bytes ≠ []) :
    stream.Took bytes (stream.room bytes.length) (stream.take bytes) := by
  refine ⟨growable_take _ _, position_take _ _, fun i => ?_⟩
  have hlength : (bytes.take (stream.room bytes.length)).length = stream.room bytes.length := by
    rw [List.length_take, Nat.min_eq_left (stream.room_le _)]
  rw [content_take]
  by_cases hnone : stream.room bytes.length = 0
  · have hfixed : ¬stream.growable := by
      intro hgrows
      rw [room, if_pos hgrows] at hnone
      exact hsome (List.length_eq_zero_iff.mp hnone)
    rw [if_pos hnone, if_neg (by omega), if_neg (fun h => hfixed h.1)]
  · rw [if_neg hnone, Bytes.getElem?_overwrite_eq_ite, hlength]
    by_cases hin : stream.position ≤ i ∧ i < stream.position + stream.room bytes.length
    · rw [if_pos hin, if_pos hin, List.getElem?_take, if_pos (by omega)]
    · rw [if_neg hin, if_neg hin]
      by_cases hgrows : stream.growable
      · simp only [hgrows, true_and]
      · have hbelow : stream.position < stream.content.length := by
          rw [room, if_neg hgrows] at hnone
          omega
        rw [if_neg (by omega), if_neg (fun h => hgrows h.1)]

-- A fixed stream stays as long as it is.
theorem length_content_take (h : stream.growable = false) (bytes : Bytes) :
    (stream.take bytes).content.length = stream.content.length := by
  rw [content_take]
  split
  next => rfl
  next hsome =>
    simp only [room, h, Bool.false_eq_true, if_false] at hsome ⊢
    rw [Bytes.length_overwrite, List.length_take]
    omega

theorem room_take (h : stream.room a.length = a.length) (count : Nat) :
    a.length + (stream.take a).room count = stream.room (a.length + count) := by
  unfold room
  rw [growable_take, position_take]
  split
  next => rfl
  next hfixed =>
    rw [length_content_take (Bool.eq_false_iff.mpr hfixed)]
    unfold room at h ⊢
    rw [if_neg hfixed] at h ⊢
    omega

theorem take_append_of_lt (h : stream.room a.length < a.length) (b : Bytes) :
    stream.take (a ++ b) = stream.take a := by
  have hroom : stream.room (a ++ b).length = stream.room a.length := by
    rw [List.length_append, room_add_of_lt h]
  have htake : (a ++ b).take (stream.room a.length) = a.take (stream.room a.length) :=
    List.take_append_of_le_length (Nat.le_of_lt h)
  unfold take
  dsimp only
  rw [hroom, htake]

@[simp] theorem take_nil (stream : Stream) : stream.take [] = stream := by
  have hroom : stream.room 0 = 0 := Nat.le_zero.mp (stream.room_le 0)
  rw [take, List.length_nil, hroom]
  rfl

theorem eq_of_fields {s t : Stream} (hcontent : s.content = t.content)
    (hposition : s.position = t.position) (hgrowable : s.growable = t.growable) : s = t := by
  cases s
  cases t
  simp_all

theorem take_append (h : stream.room a.length = a.length) (b : Bytes) :
    stream.take (a ++ b) = (stream.take a).take b := by
  have hroom := room_take h b.length
  rw [← List.length_append] at hroom
  refine eq_of_fields ?_ ?_ (by simp only [growable_take])
  · by_cases hnil : a = []
    · rw [hnil, take_nil, List.nil_append]
    have hsome : a.length ≠ 0 := List.length_eq_zero_iff.not.mpr hnil
    have htake : (a ++ b).take (stream.room (a ++ b).length) =
        a ++ b.take ((stream.take a).room b.length) := by
      rw [← hroom, List.take_length_add_append]
    have hfirst : (stream.take a).content = stream.content.overwrite stream.position a := by
      rw [content_take, h, if_neg hsome, List.take_length]
    rw [content_take stream, if_neg (by omega), htake, content_take, hfirst, position_take, h]
    split
    next hnone => rw [hnone, List.take_zero, List.append_nil]
    next => rw [Bytes.overwrite_overwrite]
  · rw [position_take, position_take, position_take, h, ← hroom, Nat.add_assoc]

theorem run_write (stream : Stream) (bytes : Bytes) :
    (write bytes).run stream =
      if stream.room bytes.length < bytes.length then
        .error (.io "failed to write whole buffer") (stream.take bytes)
      else .ok () (stream.take bytes) := by
  have hset : ∀ next : Stream, (set next : Write Unit).run stream = .ok () next := fun _ => rfl
  simp only [write, EStateM.run_bind, run_get, hset]
  split <;> rfl

theorem run_write_bind_of_full (h : stream.room bytes.length < bytes.length)
    (next : Unit → Write α) :
    (write bytes >>= next).run stream =
      .error (.io "failed to write whole buffer") (stream.take bytes) := by
  rw [EStateM.run_bind, run_write, if_pos h]

theorem run_write_bind_of_room (h : stream.room bytes.length = bytes.length)
    (next : Unit → Write α) :
    (write bytes >>= next).run stream = (next ()).run (stream.take bytes) := by
  rw [EStateM.run_bind, run_write, if_neg (by omega)]

theorem room_eq_of_not_lt {count : Nat} (h : ¬stream.room count < count) :
    stream.room count = count :=
  Nat.le_antisymm (stream.room_le count) (Nat.le_of_not_lt h)

-- To write a string is to write it piece by piece, wherever the stream stands and
-- however little it takes.
theorem write_append (a b : Bytes) : write (a ++ b) = (do write a; write b) := by
  funext stream
  show (write (a ++ b)).run stream = (write a >>= fun _ => write b).run stream
  by_cases hfull : stream.room a.length < a.length
  · have hroom : stream.room (a ++ b).length < (a ++ b).length := by
      rw [List.length_append, room_add_of_lt hfull]
      omega
    rw [run_write_bind_of_full hfull, run_write, if_pos hroom, take_append_of_lt hfull]
  · have hall := room_eq_of_not_lt hfull
    rw [run_write_bind_of_room hall, run_write, run_write, take_append hall, List.length_append,
      ← room_take hall]
    simp only [Nat.add_lt_add_iff_left]

theorem write_nil : write [] = pure () := by
  funext stream
  show (write []).run stream = .ok () stream
  rw [run_write, take_nil, List.length_nil, if_neg (Nat.not_lt_zero _)]

theorem forM_write (words : List UInt32) :
    (words.forM fun word => write (Bytes.ofWord word)) = write (Bytes.ofWords words) := by
  induction words with
  | nil => exact write_nil.symm
  | cons word rest ih =>
      have hcons : Bytes.ofWords (word :: rest) = Bytes.ofWord word ++ Bytes.ofWords rest :=
        List.flatMap_cons
      rw [hcons, write_append, ← ih]
      rfl

end Loadable.Stream
