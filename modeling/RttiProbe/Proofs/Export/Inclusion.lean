import RttiProbe.FileTree
import RttiProbe.Proofs.Export.Plan
import RttiProbe.Proofs.Export.Writes
import RttiProbe.Proofs.Header.Includes
/-!
# Headers that include one another

The headers that the text of a header includes are those of the direct bases of its class, so what
an export with bases writes is closed under inclusion: the plan has a header for each base of each
class whose header it has, even where that header, or the base's, stands for several classes with
one path.
-/

set_option autoImplicit false

namespace RttiProbe

/-! ## Closure -/

namespace Export

/-- The text of the header of a class includes the headers of its direct bases, in order and no
others, and all headers that it includes are among the paths written below a root. -/
structure IncludesWritten (root : Path) (written : List Path) (c : Class) : Prop where
  bases : Header.includes (Header.render c) = c.bases.map Header.path
  written : ∀ p ∈ Header.includes (Header.render c),
    ∃ path ∈ written, path.components = (root.join p).components

/-- The plan of an export with bases has the headers that its headers include. -/
theorem includesWritten_of_mem_plan {c : Class} {root : Path} {item : Item}
    (h : item ∈ plan c root true) :
    IncludesWritten root ((plan c root true).map Item.path) item.subject where
  bases := Header.includes_render item.subject
  written p hp := by
    rw [Header.includes_render] at hp
    obtain ⟨base, hbase, rfl⟩ := List.mem_map.1 hp
    obtain ⟨-, hsubject, -⟩ := subject_of_mem_plan h
    obtain ⟨other, hother, heq⟩ :=
      exists_item_of_mem_preorder root (Class.base_mem_preorder c hsubject hbase)
    exact ⟨other.path, List.mem_map_of_mem hother, heq⟩

/-- What a successful export with bases writes, on any disk: one file for each path that it gives,
each with the header of the first class of the tree that goes there, and with each of them all
headers that it includes. -/
theorem run_closed_under_inclusion {σ : Type} (disk : Disk (StateM σ)) (c : Class) (root : Path)
    (overwrite : Bool) (state after : σ) (messages : List Message) (written : List Path)
    (h : run disk c root true overwrite state = ((messages, .ok written), after)) :
    ∃ writes,
      run disk.recorded c root true overwrite (state, [])
          = ((messages, .ok written), after, writes)
        ∧ writes.map Write.path = written
        ∧ ∀ write ∈ writes, ∃ x, c.preorder.find? (goesTo root write.path.components) = some x
            ∧ write = ⟨destination root x, Text.Utf8.encode (Header.render x)⟩
            ∧ IncludesWritten root written x := by
  obtain ⟨hrun, rfl⟩ := writes_of_run_eq_ok h
  refine ⟨_, hrun, by rw [List.map_map]; rfl, ?_⟩
  intro write hwrite
  obtain ⟨item, hitem, rfl⟩ := List.mem_map.1 hwrite
  obtain ⟨hpath, -, hfirst⟩ := subject_of_mem_plan hitem
  exact ⟨item.subject, hfirst, congrArg (Write.mk · _) hpath, includesWritten_of_mem_plan hitem⟩

/-- Two classes `Box`, templates with one argument and with two, that derive from different classes.
Both are bases of the class `Crate`. -/
def sampleCrate : Class :=
  let plain (name : String) : Class := .ofName name.toList
  { plain "Crate" with
    bases := [
      { plain "Box" with arguments := [plain "int"], bases := [plain "Lid"] },
      { plain "Box" with arguments := [plain "int", plain "int"], bases := [plain "Hinge"] }] }

/-- Only the first `Box` gets a header, but the bases of both do. -/
def sampleWritten : List Path :=
  [⟨"out/Crate.h".toList⟩, ⟨"out/Box.h".toList⟩, ⟨"out/Lid.h".toList⟩, ⟨"out/Hinge.h".toList⟩]

/-- The export to a tree with no files. -/
def sampleRun : (List Message × Except Error (List Path)) × FileTree :=
  run FileTree.disk sampleCrate ⟨"out".toList⟩ true false (.ofCurrent "home".toList)

theorem eq_of_toOption_eq_some {σ : Type} {out : (List Message × Except Error (List Path)) × σ}
    {written : List Path} (h : out.1.2.toOption = some written) :
    out = ((out.1.1, .ok written), out.2) := by
  obtain ⟨⟨messages, result⟩, after⟩ := out
  cases result with
  | error e => cases h
  | ok paths =>
      obtain rfl := Option.some.inj h
      rfl

theorem run_closed_under_inclusion_sample :
    sampleRun = ((sampleRun.1.1, .ok sampleWritten), sampleRun.2)
      ∧ ∃ writes : List Write, writes.map Write.path = sampleWritten
        ∧ ∀ write ∈ writes, ∃ x,
          sampleCrate.preorder.find? (goesTo ⟨"out".toList⟩ write.path.components) = some x
            ∧ write = ⟨destination ⟨"out".toList⟩ x, Text.Utf8.encode (Header.render x)⟩
            ∧ IncludesWritten ⟨"out".toList⟩ sampleWritten x := by
  have hrun : sampleRun = ((sampleRun.1.1, .ok sampleWritten), sampleRun.2) :=
    eq_of_toOption_eq_some (by decide +kernel)
  obtain ⟨writes, -, hpaths, hwrites⟩ := run_closed_under_inclusion FileTree.disk sampleCrate
    ⟨"out".toList⟩ false (.ofCurrent "home".toList) sampleRun.2 sampleRun.1.1 sampleWritten hrun
  exact ⟨hrun, writes, hpaths, hwrites⟩

end Export

end RttiProbe
