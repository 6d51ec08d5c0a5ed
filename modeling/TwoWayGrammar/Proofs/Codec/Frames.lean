import TwoWayGrammar.Grammar.Dependence
import TwoWayGrammar.Proofs.Grammar.Row
import TwoWayGrammar.Proofs.Law.WriteAfterRead
import TwoWayGrammar.Proofs.Run.Mapping

namespace TwoWayGrammar

/-- Bytes as an input of numbers. -/
def Input.ofBytes (content : List UInt8) : Input := content.map fun byte => .number byte.toNat

@[simp] theorem Input.length_ofBytes (content : List UInt8) :
    (Input.ofBytes content).length = content.length :=
  List.length_map _

theorem Input.ofBytes_append (first second : List UInt8) :
    Input.ofBytes (first ++ second) = Input.ofBytes first ++ Input.ofBytes second :=
  List.map_append

/-- Bytes as a list of numbers. -/
def Value.ofBytes (content : List UInt8) : Value := .list ((Input.ofBytes content).map .atom)

/-- Several payloads as a list. -/
def Value.ofPayloads (payloads : List (List UInt8)) : Value := .list (payloads.map Value.ofBytes)

theorem Input.ofBytes_inj (first second : List UInt8) :
    Input.ofBytes first = Input.ofBytes second ↔ first = second := by
  refine List.map_inj_right fun byte other same => ?_
  exact UInt8.toNat_inj.mp (Int.ofNat_inj.mp (Atom.number.inj same))

theorem Value.ofPayloads_inj (payloads others : List (List UInt8)) :
    Value.ofPayloads payloads = Value.ofPayloads others ↔ payloads = others := by
  rw [Value.ofPayloads, Value.ofPayloads, Value.list.injEq]
  refine List.map_inj_right fun payload other same => ?_
  have atoms : (Input.ofBytes payload).map Value.atom = (Input.ofBytes other).map Value.atom :=
    Value.list.inj same
  rwa [List.map_inj_right (fun _ _ => Value.atom.inj), Input.ofBytes_inj] at atoms

namespace ByteFrame

/-- A frame keeps as much of a payload as one byte can count. -/
def kept (payload : List UInt8) : List UInt8 := payload.take (payload.length % 256)

/-- The frame of a payload. -/
def encode (payload : List UInt8) : List UInt8 := UInt8.ofNat payload.length :: kept payload

/-- The payload of the frame in front, with the bytes behind the frame. -/
def decode : List UInt8 → Option (List UInt8 × List UInt8)
  | [] => none
  | count :: following =>
    if count.toNat ≤ following.length then
      some (following.take count.toNat, following.drop count.toNat)
    else none

variable {payload content rest : List UInt8}

theorem length_kept (payload : List UInt8) : (kept payload).length = payload.length % 256 := by
  rw [kept, List.length_take]
  exact Nat.min_eq_left (Nat.mod_le _ _)

theorem kept_eq_self_iff : kept payload = payload ↔ payload.length ≤ 255 := by
  constructor
  · intro same
    have bound := length_kept payload
    rw [same] at bound
    omega
  · intro short
    exact List.take_of_length_le (by omega)

/-- A row of payloads is kept as it is when each of them is short enough for its count. -/
theorem map_kept_eq_self_iff (payloads : List (List UInt8)) :
    payloads.map kept = payloads ↔ ∀ payload ∈ payloads, payload.length ≤ 255 := by
  calc payloads.map kept = payloads
      ↔ payloads.map kept = payloads.map id := by rw [List.map_id]
    _ ↔ ∀ payload ∈ payloads, kept payload = payload := List.map_inj_left
    _ ↔ ∀ payload ∈ payloads, payload.length ≤ 255 := by simp only [kept_eq_self_iff]

theorem encode_ne_nil (payload : List UInt8) : encode payload ≠ [] := List.cons_ne_nil _ _

theorem decode_encode_append (payload rest : List UInt8) :
    decode (encode payload ++ rest) = some (kept payload, rest) := by
  have count : (UInt8.ofNat payload.length).toNat = (kept payload).length := by
    rw [length_kept]
    rfl
  rw [encode, List.cons_append, decode, count, List.length_append, if_pos (Nat.le_add_right _ _),
    List.take_left, List.drop_left]

/-- Only the frame of the payload has it in front. -/
theorem encode_of_decode (decoded : decode content = some (payload, rest)) :
    content = encode payload ++ rest ∧ payload.length ≤ 255 := by
  cases content with
  | nil => simp [decode] at decoded
  | cons count following =>
    rw [decode] at decoded
    split at decoded
    · rename_i enough
      obtain ⟨rfl, rfl⟩ := Prod.mk.inj (Option.some.inj decoded)
      have length : (following.take count.toNat).length = count.toNat := by
        rw [List.length_take]
        omega
      have small : count.toNat < 256 := count.toNat_lt
      have short : (following.take count.toNat).length ≤ 255 := by omega
      refine ⟨?_, short⟩
      rw [encode, kept_eq_self_iff.mpr short, length, UInt8.ofNat_toNat, List.cons_append,
        List.take_append_drop]
    · simp at decoded

/-- Every content is a row of frames, and behind it no further frame. -/
theorem exists_frames (content : List UInt8) :
    ∃ (payloads : List (List UInt8)) (rest : List UInt8), content = payloads.flatMap encode ++ rest ∧
      (∀ payload ∈ payloads, payload.length ≤ 255) ∧ decode rest = none := by
  -- Only the frames of short payloads are as they were decoded.
  have nonempty (short : { payload : List UInt8 // payload.length ≤ 255 }) : encode short ≠ [] :=
    encode_ne_nil short
  obtain ⟨shorts, rest, rfl, ends⟩ := Grammar.exists_row nonempty content
  refine ⟨shorts.map Subtype.val, rest, by rw [List.flatMap_map], ?_, ?_⟩
  · intro payload member
    obtain ⟨short, _, rfl⟩ := List.mem_map.mp member
    exact short.property
  cases decoded : decode rest with
  | none => rfl
  | some split =>
    obtain ⟨same, small⟩ := encode_of_decode decoded
    exact absurd same (ends ⟨_, small⟩ _)

end ByteFrame

namespace Grammar

variable (fuel : Nat)

/-- A frame is a number and as many atoms as it counts. Written is the length of the payload as a byte. -/
def byteFrame : Grammar :=
  dependent element (counted .bytes element) (Value.lengthIn ⟨.bits8, false⟩) ∅

theorem readTimes_element (count : Nat) (input : Input) :
    Run.readTimes (element.read fuel) count input =
      pure (if count ≤ input.length then .success ((input.take count).map .atom) (input.drop count)
        else .failure []) := by
  induction count generalizing input with
  | zero => simp [Run.readTimes]
  | succ count ih =>
    cases input with
    | nil => simp [Run.readTimes, read_primitive, Primitive.read, Run.onSuccess]
    | cons atom following =>
      rw [Run.readTimes, read_primitive, Primitive.read, Run.onSuccess_pure_success, ih]
      simp only [List.length_cons, Nat.add_le_add_iff_right]
      split
      · rfl
      · rfl

theorem writeEach_element (atoms rest : Input) :
    Run.writeEach (element.write fuel) (atoms.map .atom) rest = pure (atoms ++ rest) := by
  induction atoms with
  | nil => rfl
  | cons atom atoms ih =>
    rw [List.map_cons, Run.writeEach, ih, pure_bind, write_primitive]
    rfl

theorem counted_byte (byte : UInt8) :
    counted .bytes element (.number byte.toNat) = replicate .bytes byte.toNat element := by
  rw [counted, Value.count_number (Nat.lt_trans byte.toNat_lt (by decide))]

theorem lengthIn_ofBytes (payload : List UInt8) :
    Value.lengthIn ⟨.bits8, false⟩ (.ofBytes payload) = .number (UInt8.ofNat payload.length).toNat := by
  simp [Value.ofBytes, Value.lengthIn, Input.ofBytes, IntegerType.wrap, Width.words]

/-- Reading takes the frame in front off, and leaves nothing to see where it fails. -/
theorem read_byteFrame (content : List UInt8) :
    byteFrame.read fuel (.ofBytes content) =
      pure ((ByteFrame.decode content).elim (.failure []) fun found =>
        .success (.ofBytes found.1) (.ofBytes found.2)) := by
  cases content with
  | nil =>
    rw [byteFrame, read_dependent, read_primitive]
    rfl
  | cons count following =>
    have small : count.toNat < 256 := count.toNat_lt
    have within : ¬ Capacity.bytes.items < count.toNat := by
      rw [Capacity.items_bytes]
      omega
    have counted : byteFrame.read fuel (.ofBytes (count :: following)) =
        (replicate .bytes count.toNat element).read fuel (.ofBytes following) := by
      rw [byteFrame, read_dependent, read_primitive, ← counted_byte count]
      exact Run.onSuccess_pure_success _ _ _
    rw [counted, read_replicate, if_neg within, readTimes_element, ByteFrame.decode]
    simp only [Input.ofBytes, List.length_map]
    split
    · rw [Run.onSuccess_pure_success, ← List.map_take, ← List.map_drop]
      rfl
    · rfl

/-- Writing cuts a payload to what the byte in front counts. -/
theorem write_byteFrame (payload : List UInt8) (rest : Input) :
    byteFrame.write fuel (.ofBytes payload) rest =
      pure (.ofBytes (ByteFrame.encode payload) ++ rest) := by
  -- The repetition gets the length as a byte, and writes no more than that.
  have body : (replicate .bytes (UInt8.ofNat payload.length).toNat element).write fuel
      (.ofBytes payload) rest =
        pure (.ofBytes (ByteFrame.kept payload) ++ rest) := by
    rw [Value.ofBytes, write_replicate, ← List.map_take, writeEach_element, Input.ofBytes,
      ← List.map_take]
    rfl
  rw [byteFrame, write_dependent, lengthIn_ofBytes, counted_byte, body, pure_bind, write_primitive]
  rfl

theorem print_byteFrames (payloads : List (List UInt8)) :
    (many byteFrame).print fuel (.ofPayloads payloads) =
      pure (.ofBytes (payloads.flatMap ByteFrame.encode)) := by
  funext held store
  have writes (payload : List UInt8) (_ : payload ∈ payloads) (rest : List UInt8) :
      byteFrame.write fuel (.ofBytes payload) (.ofBytes rest) held store =
        (.returned (.ofBytes (ByteFrame.encode payload ++ rest)), store) := by
    rw [write_byteFrame, Input.ofBytes_append]
    rfl
  have row := write_many_row writes []
  rwa [List.append_nil] at row

variable (held : AddressSet) (store : Store)

/-- A loop over frames ends where there is no frame any more. -/
theorem read_byteFrames (payloads : List (List UInt8)) {rest : List UInt8}
    (ending : ByteFrame.decode rest = none) :
    (many byteFrame).read fuel (.ofBytes (payloads.flatMap ByteFrame.encode ++ rest)) held store =
      (.returned (.success (.ofPayloads (payloads.map ByteFrame.kept)) (.ofBytes rest)), store) := by
  have failed : byteFrame.read fuel (.ofBytes rest) held store = (.returned (.failure []), store) := by
    rw [read_byteFrame, ending]
    rfl
  have reads (payload following : List UInt8) :
      byteFrame.read fuel (.ofBytes (ByteFrame.encode payload ++ following)) held store =
        (.returned (.success (.ofBytes (ByteFrame.kept payload)) (.ofBytes following)), store) := by
    rw [read_byteFrame, ByteFrame.decode_encode_append]
    rfl
  rw [read_many_row Input.length_ofBytes ByteFrame.encode_ne_nil reads payloads failed,
    Value.ofPayloads, List.map_map]
  rfl

theorem parseAll_byteFrames (payloads : List (List UInt8)) {rest : List UInt8}
    (ending : ByteFrame.decode rest = none) :
    (many byteFrame).parseAll fuel (.ofBytes (payloads.flatMap ByteFrame.encode ++ rest)) held store =
      (.returned (if rest = [] then some (.ofPayloads (payloads.map ByteFrame.kept)) else none),
        store) := by
  rw [parseAll_of_read (read_byteFrames fuel held store payloads ending)]
  cases rest with
  | nil => rfl
  | cons byte rest => rfl

/-- What is printed parses again, up to what the frames have cut off. -/
theorem parseAll_of_print_byteFrames (payloads : List (List UInt8)) :
    ((many byteFrame).print fuel (.ofPayloads payloads) >>= (many byteFrame).parseAll fuel) held store =
      (.returned (some (.ofPayloads (payloads.map ByteFrame.kept))), store) := by
  rw [print_byteFrames, pure_bind, ← List.append_nil (payloads.flatMap ByteFrame.encode)]
  exact parseAll_byteFrames fuel held store payloads rfl

/-- Bytes are frames of short payloads as far as they are frames, so a complete parse returns, and what it
finds is printed as it was. -/
theorem exists_parseAll_byteFrames (content : List UInt8) :
    ∃ found : Option (List (List UInt8)),
      (many byteFrame).parseAll fuel (.ofBytes content) held store =
        (.returned (found.map .ofPayloads), store) ∧
      ∀ payloads ∈ found, payloads.flatMap ByteFrame.encode = content := by
  obtain ⟨payloads, rest, rfl, short, ending⟩ := ByteFrame.exists_frames content
  have parsed := parseAll_byteFrames fuel held store payloads ending
  rw [(ByteFrame.map_kept_eq_self_iff payloads).mpr short] at parsed
  cases rest with
  | nil => exact ⟨some payloads, parsed, by simp⟩
  | cons byte rest => exact ⟨none, parsed, by simp⟩

/-- A frame is read exactly when its count and as many bytes as it says are there, and it is written back
byte for byte. Rows of payloads are printed and parsed again up to the bytes that no count can tell, so
nothing is lost exactly when no payload has more than 255 bytes. A row of frames that parses is printed as
it was. -/
theorem byteFrames_read_and_written :
    (∀ content, byteFrame.read fuel (.ofBytes content) held store =
      (.returned ((ByteFrame.decode content).elim (.failure []) fun found =>
        .success (.ofBytes found.1) (.ofBytes found.2)), store)) ∧
    (∀ content payload rest, ByteFrame.decode content = some (payload, rest) →
      byteFrame.write fuel (.ofBytes payload) (.ofBytes rest) held store =
        (.returned (.ofBytes content), store)) ∧
    (∀ payloads,
      ((many byteFrame).print fuel (.ofPayloads payloads) >>= (many byteFrame).parseAll fuel) held
          store = (.returned (some (.ofPayloads (payloads.map ByteFrame.kept))), store)) ∧
    (∀ payloads,
      ((many byteFrame).print fuel (.ofPayloads payloads) >>= (many byteFrame).parseAll fuel) held
          store = (.returned (some (.ofPayloads payloads)), store) ↔
        ∀ payload ∈ payloads, payload.length ≤ 255) ∧
    ∀ content,
      (∃ found : Option (List (List UInt8)), (many byteFrame).parseAll fuel (.ofBytes content) held
        store = (.returned (found.map .ofPayloads), store)) ∧
      ∀ payloads after,
        (many byteFrame).parseAll fuel (.ofBytes content) held store =
            (.returned (some (.ofPayloads payloads)), after) →
          (many byteFrame).print fuel (.ofPayloads payloads) held after =
            (.returned (.ofBytes content), after) := by
  refine ⟨?_, ?_, ?_, ?_, ?_⟩
  · intro content
    rw [read_byteFrame]
    rfl
  · intro content payload rest decoded
    obtain ⟨rfl, _⟩ := ByteFrame.encode_of_decode decoded
    rw [write_byteFrame, Input.ofBytes_append]
    rfl
  · exact parseAll_of_print_byteFrames fuel held store
  · intro payloads
    rw [parseAll_of_print_byteFrames, ← ByteFrame.map_kept_eq_self_iff]
    simp only [Prod.mk.injEq, Outcome.returned.injEq, Option.some.injEq, Value.ofPayloads_inj, and_true]
  · intro content
    obtain ⟨found, parsed, printed⟩ := exists_parseAll_byteFrames fuel held store content
    refine ⟨⟨found, parsed⟩, ?_⟩
    intro payloads after returned
    rw [parsed] at returned
    simp only [Prod.mk.injEq, Outcome.returned.injEq, Option.map_eq_some_iff, Value.ofPayloads_inj] at returned
    obtain ⟨⟨_, inside, rfl⟩, rfl⟩ := returned
    rw [print_byteFrames, printed _ inside]
    rfl

/-- A frame of three bytes is read and written back, and a row of three frames, the second of them empty,
is parsed and printed in both orders. -/
theorem byteFrames_read_and_written_three :
    let store := Store.new .unlimited
    let row := Input.ofBytes [1, 42, 0, 2, 5, 6]
    let payloads : List (List UInt8) := [[42], [], [5, 6]]
    ByteFrame.decode [3, 1, 2, 3, 9] = some ([1, 2, 3], [9]) ∧
    byteFrame.write 0 (.ofBytes [1, 2, 3]) (.ofBytes [9]) ∅ store =
      (.returned (.ofBytes [3, 1, 2, 3, 9]), store) ∧
    (∀ payload ∈ payloads, payload.length ≤ 255) ∧
    ((many byteFrame).print 0 (.ofPayloads payloads) >>= (many byteFrame).parseAll 0) ∅ store =
      (.returned (some (.ofPayloads payloads)), store) ∧
    (many byteFrame).parseAll 0 row ∅ store = (.returned (some (.ofPayloads payloads)), store) ∧
    (many byteFrame).print 0 (.ofPayloads payloads) ∅ store = (.returned row, store) := by
  intro store row payloads
  obtain ⟨_, writes, _, lossless, prints⟩ := byteFrames_read_and_written 0 ∅ store
  have decoded : ByteFrame.decode [3, 1, 2, 3, 9] = some ([1, 2, 3], [9]) := rfl
  have short : ∀ payload ∈ payloads, payload.length ≤ 255 := by decide
  have parsed : (many byteFrame).parseAll 0 row ∅ store =
      (.returned (some (.ofPayloads payloads)), store) := rfl
  exact ⟨decoded, writes _ _ _ decoded, short, (lossless payloads).mpr short, parsed,
    (prints _).2 payloads store parsed⟩

end Grammar

end TwoWayGrammar
