import Adb.Lib.Words

namespace Adb.Lib

section Layout

-- A field of a record: its width in bytes, and the number in it.
structure RecordField where
  width : Nat
  value : Nat

variable {fields : List RecordField} {pre rest : List UInt8} {width value i : Nat}

def layout (fields : List RecordField) : List UInt8 :=
  fields.flatMap fun field => toLittleEndian field.width field.value

-- Where a field begins, behind those before it.
def offset (fields : List RecordField) (i : Nat) : Nat := ((fields.take i).map RecordField.width).sum

theorem length_layout (fields : List RecordField) :
    (layout fields).length = (fields.map RecordField.width).sum := by
  simp [layout, List.length_flatMap]

theorem layout_split (h : fields[i]? = some ⟨width, value⟩) :
    layout fields = layout (fields.take i) ++ (toLittleEndian width value ++ layout (fields.drop (i + 1))) := by
  obtain ⟨hlt, hget⟩ := List.getElem?_eq_some_iff.mp h
  have hsplit : fields.take i ++ fields[i] :: fields.drop (i + 1) = fields := by
    rw [List.cons_getElem_drop_succ, List.take_append_drop]
  calc
    layout fields = layout (fields.take i ++ fields[i] :: fields.drop (i + 1)) := by rw [hsplit]
    _ = _ := by rw [hget]; simp [layout]

-- A field is read back from its place, wherever the record stands.
theorem read_layout (h : fields[i]? = some ⟨width, value⟩) (hvalue : value < 256 ^ width) :
    ofLittleEndian (((pre ++ (layout fields ++ rest)).drop (pre.length + offset fields i)).take width) = value := by
  have hoffset : offset fields i = (layout (fields.take i)).length := (length_layout _).symm
  rw [hoffset, List.drop_append, List.drop_of_length_le (by omega), Nat.add_sub_cancel_left, List.nil_append,
    layout_split h, List.append_assoc, List.drop_left, List.append_assoc,
    List.take_left' (length_toLittleEndian width value), ofLittleEndian_toLittleEndian, Nat.mod_eq_of_lt hvalue]

end Layout

end Adb.Lib
