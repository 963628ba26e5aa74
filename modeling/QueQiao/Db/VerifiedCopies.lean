import QueQiao.Db.MigrateVerify

namespace QueQiao.Migrate

open Audit Lib.Keyset

section Payloads

/-- The columns of a payload of the source can be read, and so can those of a payload of the target,
with the same values. -/
def SamePayload (row : SourceRow) (values : List Value) : Prop :=
  ∀ column ∈ comparedColumns, ∃ value, column.source (row.column column.name) = some value ∧
    column.target (valueOf payloadNames values column.name) = some value

/-- The payloads of the source and of the target are the same set. -/
structure SamePayloads (source : Source) (target : Target) : Prop where
  copied : ∀ row ∈ source.payloads, ∃ values,
    (row.id, values) ∈ target.payloads.rows ∧ SamePayload row values
  only : ∀ copy ∈ target.payloads.rows, ∃ row ∈ source.payloads,
    row.id = copy.1 ∧ SamePayload row copy.2

variable {source : Source} {target : Target}

theorem ids_subset (hcopied : ∀ row ∈ source.payloads, ∃ values,
      (row.id, values) ∈ target.payloads.rows ∧ SamePayload row values) :
    source.payloads.map SourceRow.id ⊆ target.payloads.rows.map Prod.fst := by
  intro id hid
  obtain ⟨row, hrow, rfl⟩ := List.mem_map.mp hid
  obtain ⟨values, hmem, -⟩ := hcopied row hrow
  exact List.mem_map_of_mem hmem

theorem SamePayloads.length_eq (h : SamePayloads source target) :
    target.payloads.rows.length = source.payloads.length := by
  have hperm : (source.payloads.map SourceRow.id).Perm (target.payloads.rows.map Prod.fst) := by
    refine (List.perm_ext_iff_of_nodup source.ascending_payloads.nodup_keys
      target.payloads.nodup).mpr fun id ↦ ?_
    constructor
    · intro hid
      exact ids_subset h.copied hid
    · intro hid
      obtain ⟨copy, hcopy, rfl⟩ := List.mem_map.mp hid
      obtain ⟨row, hrow, hid, -⟩ := h.only copy hcopy
      exact List.mem_map.mpr ⟨row, hrow, hid⟩
  have hlength := hperm.length_eq
  rwa [List.length_map, List.length_map, eq_comm] at hlength

end Payloads

section Scope

variable {source : Source} {target : Target} {indexed : Target → String → ℕ}

def timed (id : ℤ) (model : String) : SourceRow where
  id := id
  column := fun name ↦
    if name = "TimeMs" then .integer 5 else if name = "Model" then .text model else .null

def original : Source where
  records := [timed 1 "a", timed 2 "a"]
  payloads := []
  ascending_records := by simp [Ascending, timed]
  ascending_payloads := ascending_nil

end Scope

end QueQiao.Migrate
