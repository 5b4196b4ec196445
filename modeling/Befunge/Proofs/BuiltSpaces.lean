import Befunge.Proofs.GridMotion

/-! The spaces that there can be. A space is loaded or begun empty, and from then on takes
rows and writes in any order. A torus among them is a grid that begins at the origin. -/

namespace Befunge.Space

/-- A space that text, rows and writes make. -/
inductive Built : Space → Prop
  | loaded {dialect : Dialect} {rows : List String} {source : Source}
      (accepted : Source.ofLines dialect rows = .ok source) : Built (load source)
  | begun (dialect : Dialect) : Built (interactive dialect)
  | added {space after : Space} (built : Built space) (row : String) (accepted : space.addRow row = .ok after) :
      Built after
  | written {space : Space} (built : Built space) (place : Vec) (value : Value) : Built (space.put place value)
  | finished {space after : Space} (built : Built space) (accepted : space.finish = .ok after) : Built after

variable {space after : Space}

theorem finish_eq (accepted : space.finish = .ok after) : after = { space with complete := true } := by
  simp only [finish] at accepted
  split at accepted
  · cases accepted
  · split at accepted
    · cases accepted
    · exact (Except.ok.inj accepted).symm

theorem Built.grid (built : space.Built) (torus : space.dialect = .befunge93) :
    space.extent = Extent.empty 2 ∨ ∃ width height, space.Grid width height := by
  induction built with
  | @loaded dialect rows source accepted =>
    have same : source.dialect = dialect := congrArg _ (ofLines_ok accepted).1
    rw [load_dialect, same] at torus
    subst torus
    exact .inr (load_grid accepted).2
  | begun dialect =>
    obtain rfl : dialect = .befunge93 := torus
    exact .inl rfl
  | @added space after built row accepted ih =>
    have same : space.dialect = .befunge93 := (addRow_dialect accepted).symm.trans torus
    cases more : row.isEmpty with
    | true =>
      rw [(addRow_last more accepted).2.2]
      obtain blank | ⟨width, height, grid⟩ := ih same
      · exact .inl blank
      · exact .inr ⟨width, height, grid.dialect, grid.extent, grid.wide, grid.high⟩
    | false =>
      obtain blank | ⟨width, height, grid⟩ := ih same
      · exact .inr ⟨_, _, Grid.opened same blank more accepted⟩
      · exact .inr ⟨_, _, grid.addRow more accepted⟩
  | @written space built place value ih =>
    have same : space.dialect = .befunge93 := (put_grows place value).dialect.symm.trans torus
    obtain blank | ⟨width, height, grid⟩ := ih same
    · have wrapped : space.dialect.isTorus = true := by
        rw [same]
        rfl
      exact .inl ((put_torus wrapped place value).trans blank)
    · exact .inr ⟨_, _, grid.put place value⟩
  | finished built accepted ih =>
    obtain rfl := finish_eq accepted
    obtain blank | ⟨width, height, grid⟩ := ih torus
    · exact .inl blank
    · exact .inr ⟨width, height, grid.dialect, grid.extent, grid.wide, grid.high⟩

end Befunge.Space
