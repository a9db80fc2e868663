import HtcLeo.Lib.Runs
import HtcLeo.Lib.WideString
import HtcLeo.Uefi

namespace HtcLeo.Boot

open Runs

/-!
# The saved directory

`SaveSelectedDirToFile` and `LoadSelectedDirFromFile`
(`Application/HtcLeoMenuApp/Booter/AndroidSDDir.c`), over a file that a write overwrites from its
start and does not shorten.

* `Answers` — what the firmware answers to the calls of either function.
* `saveSelectedDirToFile`, `loadSelectedDirFromFile` — what they do to the file and give back.
* `load_of_saves` — after saves, the last name is loaded.
-/

/-- What the firmware answers to the calls, in their order; and what a `Write` that fails leaves
    of the file. -/
structure Answers where
  locateHandleBuffer : EfiStatus
  handleProtocol : EfiStatus
  openVolume : EfiStatus
  openFile : EfiStatus
  transfer : EfiStatus
  left : List Byte

/-- The status of the calls before the transfer: the first error is returned. -/
def Answers.opened (a : Answers) : EfiStatus :=
  if a.locateHandleBuffer.isError then a.locateHandleBuffer
  else if a.handleProtocol.isError then a.handleProtocol
  else if a.openVolume.isError then a.openVolume
  else a.openFile

/-- `Write` at the start of a file. -/
def overwrite (data file : List Byte) : List Byte := data ++ file.drop data.length

/-- `SaveSelectedDirToFile`: its status, and the file; `Open` makes one where there is none. -/
def saveSelectedDirToFile (a : Answers) (dirPath : WideString) (file : Option (List Byte)) :
    EfiStatus × Option (List Byte) :=
  let bufferSize : U32 := BitVec.ofNat 32 dirPath.strSize
  if a.opened.isError then (a.opened, file)
  else if a.transfer.isError then (a.transfer, some a.left)
  else
    let data := (Char16.encode dirPath.memory).take bufferSize.toNat
    (a.transfer, some (overwrite data (file.getD [])))

/-- `LoadSelectedDirFromFile`: its status, and the `Buffer` that `*DirPath` is set to. -/
def loadSelectedDirFromFile (a : Answers) (file : Option (List Byte)) :
    EfiStatus × Option (List Char16) :=
  if a.opened.isError then (a.opened, none)
  else match file with
    | none => (.notFound, none)
    | some file =>
        let bufferSize := 256 * 2
        if a.transfer.isError then (a.transfer, none)
        else
          let read := file.take bufferSize
          let buffer := read ++ List.replicate (bufferSize - read.length) 0
          (a.transfer, some (Char16.decode buffer))

/-- A save with what it is answered. -/
def save (file : Option (List Byte)) (s : Answers × WideString) : Option (List Byte) :=
  (saveSelectedDirToFile s.1 s.2 file).2

/-- A save that succeeds has written the name with its terminator. -/
theorem saveSelectedDirToFile_success {a : Answers} {dirPath : WideString}
    {file : Option (List Byte)} (h : (saveSelectedDirToFile a dirPath file).1 = .success)
    (hlen : dirPath.name.length ≤ 255) :
    (saveSelectedDirToFile a dirPath file).2 =
      some (overwrite (Char16.encode (dirPath.name ++ [0])) (file.getD [])) := by
  obtain ⟨-, rest, hmemory⟩ := dirPath.memory_eq
  have hbytes : Char16.encode dirPath.memory
      = Char16.encode (dirPath.name ++ [0]) ++ Char16.encode rest := by
    rw [hmemory, List.append_cons, Char16.encode_append]
  have hsize : (BitVec.ofNat 32 dirPath.strSize).toNat
      = (Char16.encode (dirPath.name ++ [0])).length := by
    rw [Char16.encode_length, List.length_append, List.length_singleton, BitVec.toNat_ofNat,
      Nat.mod_eq_of_lt]
    · rfl
    · unfold WideString.strSize
      omega
  have hdata : (Char16.encode dirPath.memory).take (BitVec.ofNat 32 dirPath.strSize).toNat
      = Char16.encode (dirPath.name ++ [0]) := by
    rw [hsize, hbytes, List.take_left]
  unfold saveSelectedDirToFile at h ⊢
  dsimp only at h ⊢
  split_ifs at h ⊢ with hopened htransfer
  · exact absurd h (by simpa using hopened)
  · exact absurd h (by simpa using htransfer)
  · rw [hdata]

/-- The buffer of a load has room for the name and its terminator; whatever is left of a longer
    one behind them is not part of the string. -/
theorem loadSelectedDirFromFile_overwrite {a : Answers} (hopened : a.opened = .success)
    (htransfer : a.transfer = .success) {name : List Char16} (hname : 0 ∉ name)
    (hlen : name.length ≤ 255) (file : List Byte) :
    ∃ buffer, loadSelectedDirFromFile a (some (overwrite (Char16.encode (name ++ [0])) file))
      = (.success, some buffer) ∧ stringAt buffer = some name := by
  let data := Char16.encode (name ++ [0])
  let tail := (file.drop data.length).take (256 * 2 - data.length)
  have hlength : data.length ≤ 256 * 2 := by
    rw [Char16.encode_length, List.length_append, List.length_singleton]
    omega
  have hread : (overwrite data file).take (256 * 2) = data ++ tail := by
    unfold overwrite
    rw [List.take_append, List.take_of_length_le hlength]
  let zeros := List.replicate (256 * 2 - (data ++ tail).length) (0 : Byte)
  refine ⟨name ++ 0 :: Char16.decode (tail ++ zeros), ?_, stringAt_append hname _⟩
  unfold loadSelectedDirFromFile
  dsimp only
  rw [if_neg (by simp [hopened]), if_neg (by simp [htransfer]), htransfer, hread,
    List.append_assoc, Char16.decode_encode_append, ← List.append_cons]

/-- **Round trip.**  After saves that have all succeeded, a load that succeeds gives back the name
    of the last, whatever was in the file before it. -/
theorem load_of_saves {file : Option (List Byte)} {saves : List (Answers × WideString)}
    {a : Answers} {dirPath : WideString}
    (hsaves : EveryStep save (fun file s => (saveSelectedDirToFile s.1 s.2 file).1 = .success) file
      (saves ++ [(a, dirPath)]))
    (hlen : dirPath.name.length ≤ 255) {b : Answers} (hopened : b.opened = .success)
    (htransfer : b.transfer = .success) :
    ∃ buffer, loadSelectedDirFromFile b ((saves ++ [(a, dirPath)]).foldl save file)
      = (.success, some buffer) ∧ stringAt buffer = some dirPath.name := by
  have hlast := (everyStep_concat.mp hsaves).2
  have hfile : (saves ++ [(a, dirPath)]).foldl save file
      = some (overwrite (Char16.encode (dirPath.name ++ [0]))
          ((saves.foldl save file).getD [])) := by
    rw [List.foldl_append]
    exact saveSelectedDirToFile_success hlast hlen
  rw [hfile]
  exact loadSelectedDirFromFile_overwrite hopened htransfer dirPath.memory_eq.1 hlen _

/-- Every call succeeds. -/
def succeeds : Answers := ⟨.success, .success, .success, .success, .success, []⟩

/-- `"android"`. -/
def android : WideString := ⟨[97, 110, 100, 114, 111, 105, 100, 0], by decide⟩
/-- `"sd"`, with something behind it. -/
def sd : WideString := ⟨[115, 100, 0, 7], by decide⟩

theorem sd_after_android :
    ∃ buffer, loadSelectedDirFromFile succeeds
      (([(succeeds, android)] ++ [(succeeds, sd)]).foldl save none)
      = (.success, some buffer) ∧ stringAt buffer = some [115, 100] :=
  have hsaves : EveryStep save (fun file s => (saveSelectedDirToFile s.1 s.2 file).1 = .success)
      none ([(succeeds, android)] ++ [(succeeds, sd)]) := ⟨rfl, rfl, trivial⟩
  load_of_saves hsaves (by decide) rfl rfl

end HtcLeo.Boot
