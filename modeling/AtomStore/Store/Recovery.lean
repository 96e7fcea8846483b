import AtomStore.DataFile
import AtomStore.Store.Slots

/-!
# Recovery

When a store opens, the records of its data file are taken into an empty table of slots. A last
record that was cut short is reported, or removed from the file where that is asked for and allowed.
In the end every slot that no record filled is empty for good.
-/

namespace AtomStore

/-- How a recovery has ended, with what it did to the table, the directory and the open file. -/
structure Recovery where
  slots : Slots
  directory : Directory
  file : DataFile
  outcome : Except LogError Log.Summary

namespace DataFile

/-- Takes the records of a file into a table of slots. -/
def recover (file : DataFile) (directory : Directory) (slots : Slots) (repair : Bool) :
    Recovery :=
  match file.replay directory Slots.takeRecord slots with
  | (taken, _, _, .ok (summary, read)) =>
    ⟨taken.settle.2, directory, read, .ok summary⟩
  | (taken, records, atoms, .error (.truncated offset)) =>
    if repair && !file.readOnly then
      match file.truncate directory offset with
      | .ok (cut, shorter) =>
        ⟨taken.settle.2, cut, shorter, .ok ⟨records, atoms, offset⟩⟩
      | .error error => ⟨taken, directory, file, .error error⟩
    else ⟨taken, directory, file, .error (.truncated offset)⟩
  | (taken, _, _, .error error) => ⟨taken, directory, file, .error error⟩

end DataFile
end AtomStore
