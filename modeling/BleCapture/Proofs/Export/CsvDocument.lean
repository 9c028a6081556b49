import BleCapture.Proofs.Device.Order
import BleCapture.Proofs.Export.Csv
import BleCapture.Proofs.Export.Writing

/-!
# Reading the CSV report

Whatever names the devices gave themselves, the report reads back as the header and
one record for every device.
-/

namespace BleCapture.CsvReport

/-- The records of the report, as characters. -/
def records (s : Session) : List (List Csv.Cell) :=
  (rows s).map fun r => r.map String.toList

theorem length_of_mem_rows {s : Session} {r : List String} (h : r ∈ rows s) : r.length = 16 := by
  rcases List.mem_cons.mp h with rfl | h
  · rfl
  · obtain ⟨d, -, rfl⟩ := List.mem_map.mp h
    rfl

theorem length_of_mem_records {s : Session} {r : List Csv.Cell} (h : r ∈ records s) :
    r.length = 16 := by
  obtain ⟨row, hrow, rfl⟩ := List.mem_map.mp h
  rw [List.length_map, length_of_mem_rows hrow]

theorem tableText_records (s : Session) : Csv.TableText (Csv.writtenTable (records s)) (records s) := by
  refine Csv.tableText_writtenTable fun r hr hnil => ?_
  have hlength := length_of_mem_records hr
  rw [hnil] at hlength
  cases hlength

theorem dropLast_append_toList_getLast? (l : List α) : l.dropLast ++ l.getLast?.toList = l := by
  cases hlast : l.getLast? with
  | none =>
    rw [List.getLast?_eq_none_iff.mp hlast]
    rfl
  | some a => exact List.dropLast_append_getLast? a hlast

theorem bytes_document (s : Session) :
    (document s).bytes = Text.Utf8.encode (Csv.writtenTable (records s)) := by
  unfold document
  extract_lets cells blocks
  have hblocks : blocks.flatten = (Csv.tableSegments cells).flatten := by
    rw [Csv.flatten_blocks, List.reverse_nil, List.nil_append]
  rw [Document.bytes, List.flatMap_append, List.flatMap_map, List.flatMap_map, List.flatMap_id',
    List.flatMap_id', ← List.flatten_append, dropLast_append_toList_getLast?, hblocks,
    Csv.flatten_tableSegments]
  rfl

/-- The report is written without an error, and read as a table it has exactly one
record for the header and one for every device in report order, each with the sixteen
cells that were put into it. There is no other table that it is the text of. -/
theorem document_reads_back (s : Session) :
    let written := (document s).writeTo {}
    let text := Text.Utf8.decode written.1.bytes
    let table := (header :: s.devices.sorted.map row).map fun r => r.map String.toList
    written.2 = none ∧ Text.Utf8.encode text = written.1.bytes ∧
      Csv.parse? text = some table ∧ (∀ other, Csv.TableText text other ↔ other = table) ∧
      table.map List.length = List.replicate (1 + s.devices.size) 16 := by
  intro written text table
  obtain ⟨hnone, hwritten, htext⟩ : written.2 = none ∧
      written.1.bytes = Text.Utf8.encode (Csv.writtenTable (records s)) ∧
      text = Csv.writtenTable (records s) :=
    Document.writeTo_of_text (bytes_document s)
  have hread : Csv.parse? text = some table := by
    rw [htext]
    exact Csv.parse?_of_tableText (tableText_records s)
  have hlength : table.length = 1 + s.devices.size := by
    rw [List.length_map, List.length_cons, List.length_map, s.devices.sorted_perm.length_eq]
    exact Nat.add_comm _ _
  refine ⟨hnone, by rw [htext, hwritten], hread, fun other => ?_, ?_⟩
  · rw [← Csv.parse?_eq_some_iff, hread, Option.some.injEq]
    exact eq_comm
  · rw [List.eq_replicate_iff, List.length_map, List.forall_mem_map]
    exact ⟨hlength, fun r hr => length_of_mem_records hr⟩

end BleCapture.CsvReport
