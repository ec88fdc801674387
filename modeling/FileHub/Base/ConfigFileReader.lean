import FileHub.Lib.CBuffer

/-!
# `CConfigFileReader` of `config_file_reader.cc`

The reader edits one array of 256 bytes in place: `fgets` fills it, and the
newline, a comment, the `=` and trailing blanks are overwritten with NUL. Every
access goes through the array, so the functions are `none` where one would
leave it. What the array holds before the first line is whatever was there.

The file could be opened for reading. `std::map` is a partial function, and the
list of its pairs by ascending key where `_WriteFIle` iterates over it.
-/

namespace FileHub

open Lib

/-- `config_map_` and `load_ok_`. -/
structure CConfigFileReader where
  config_map_ : Bytes → Option Bytes
  load_ok_ : Bool

namespace CConfigFileReader

def BUF_SIZE : ℕ := 256

/-- The line `fgets` reads next: up to and with a newline, and no more than the
array takes. -/
def nextLine (file : Bytes) : Bytes :=
  (file.takeWhile (· != 10) ++ (file.dropWhile (· != 10)).take 1).take (BUF_SIZE - 1)

/-- `fgets(buf, 256, fp)`: the array and the rest of the file, or null at its end. -/
def fgets (buf file : Bytes) : Option (Option (Bytes × Bytes)) :=
  if file = [] then some none
  else
    let line := nextLine file
    if line.length < buf.length then
      some (some (line ++ 0 :: buf.drop (line.length + 1), file.drop line.length))
    else none

def isBlank (b : UInt8) : Bool := b == 32 || b == 9

/-- The blanks at the start of a memory. -/
def skipBlanks : Bytes → Option ℕ
  | [] => none
  | b :: rest => if isBlank b then (skipBlanks rest).map (· + 1) else some 0

/-- The second loop of `_TrimSpace`, back from `end_pos`. -/
def trimEnd (buf : Bytes) : ℕ → Option (Bytes × ℕ)
  | 0 => do
      let b ← buf[0]?
      if isBlank b then none else return (buf, 0)
  | end_pos + 1 => do
      let b ← buf[end_pos + 1]?
      if isBlank b then trimEnd (← poke buf (end_pos + 1) 0) end_pos
      else return (buf, end_pos + 1)

/-- `_TrimSpace(buf + name)`: the array and the pointer it returns. -/
def trimSpace (buf : Bytes) (name : ℕ) : Option (Bytes × Option ℕ) := do
  let start_pos := name + (← skipBlanks (buf.drop name))
  if (← strlen buf start_pos) = 0 then return (buf, none)
  else
    let (buf, end_pos) ← trimEnd buf (name + (← strlen buf name) - 1)
    let len : Int := (end_pos : Int) - start_pos + 1
    return (buf, if len ≤ 0 then none else some start_pos)

/-- `config_map_.insert`, which keeps the value of a key it has. -/
def insert (config_map_ : Bytes → Option Bytes) (key value : Bytes) : Bytes → Option Bytes :=
  if (config_map_ key).isSome then config_map_
  else Function.update config_map_ key (some value)

/-- `_ParseLine(buf)`. -/
def parseLine (buf : Bytes) (config_map_ : Bytes → Option Bytes) :
    Option (Bytes × (Bytes → Option Bytes)) := do
  match ← strchr buf 0 61 with
  | none => return (buf, config_map_)
  | some p =>
      let buf ← poke buf p 0
      let (buf, key) ← trimSpace buf 0
      let (buf, value) ← trimSpace buf (p + 1)
      match key, value with
      | some key, some value =>
          return (buf, insert config_map_ (← readStr (buf.drop key)) (← readStr (buf.drop value)))
      | _, _ => return (buf, config_map_)

/-- `if (buf[len - 1] == '\n') buf[len - 1] = 0`. -/
def stripNewline (buf : Bytes) (len : ℕ) : Option Bytes := do
  if (← buf[len - 1]?) = 10 then poke buf (len - 1) 0 else return buf

/-- `char *ch = strchr(buf, '#'); if (ch) *ch = 0`. -/
def cutComment (buf : Bytes) : Option Bytes := do
  match ← strchr buf 0 35 with
  | none => return buf
  | some ch => poke buf ch 0

/-- The body of the loop after `fgets`. -/
def readLine (buf : Bytes) (config_map_ : Bytes → Option Bytes) :
    Option (Bytes × (Bytes → Option Bytes)) := do
  let len ← strlen buf 0
  if len = 0 then none
  else
    let buf ← stripNewline buf len
    let buf ← cutComment buf
    if (← strlen buf 0) = 0 then return (buf, config_map_)
    else parseLine buf config_map_

theorem length_nextLine_pos {file : Bytes} (h : file ≠ []) : 0 < (nextLine file).length := by
  obtain ⟨b, rest, rfl⟩ := List.exists_cons_of_ne_nil h
  rw [nextLine]
  by_cases hb : b = 10
  · simp [hb, BUF_SIZE]
  · simp [hb, BUF_SIZE]

theorem length_of_fgets {buf file buf' rest : Bytes}
    (h : fgets buf file = some (some (buf', rest))) : rest.length < file.length := by
  rw [fgets] at h
  split at h
  · cases h
  · next hfile =>
      have hpos := length_nextLine_pos hfile
      have hlen := List.length_pos_iff.mpr hfile
      dsimp only at h
      split at h
      · cases h
        rw [List.length_drop]
        omega
      · cases h

/-- The loop of `_LoadFile`. -/
def loadLines (buf file : Bytes) (config_map_ : Bytes → Option Bytes) :
    Option (Bytes → Option Bytes) :=
  match h : fgets buf file with
  | none => none
  | some none => some config_map_
  | some (some (buf, rest)) =>
      match readLine buf config_map_ with
      | none => none
      | some (buf, config_map_) => loadLines buf rest config_map_
termination_by file.length
decreasing_by exact length_of_fgets h

/-- `_LoadFile` on a file with this content. -/
def loadFile (buf file : Bytes) : Option CConfigFileReader :=
  (loadLines buf file fun _ => none).map fun config_map_ => ⟨config_map_, true⟩

def getConfigName (r : CConfigFileReader) (name : Bytes) : Option Bytes :=
  if r.load_ok_ then r.config_map_ name else none

/-! ## Writing -/

/-- The pairs of a `std::map<string, string>` from `begin()` to `end()`. -/
structure Iterates (order : List (Bytes × Bytes)) (config_map_ : Bytes → Option Bytes) : Prop where
  ascending : order.Pairwise fun a b => a.1 < b.1
  mem_iff : ∀ key value, (key, value) ∈ order ↔ config_map_ key = some value

/-- What `_WriteFIle` meets at the disk: if `fopen` opens the file, what the
`fwrite` of each line returns, and how many of the bytes it was given the file
has after `fclose`, whose result nothing looks at. -/
structure Disk where
  opens : Bool
  fwrite : ℕ → ℕ
  flushed : ℕ

/-- `snprintf(szPaire, sizeof(szPaire), "%s=%s\n", …)`: the string in the array. -/
def szPaire (it : Bytes × Bytes) : Bytes := (cStr it.1 ++ 61 :: (cStr it.2 ++ [10])).take (128 - 1)

/-- The loop of `_WriteFIle` from the line `n` on, after this text: what is
returned, and all that `fwrite` was given. -/
def writeLines (disk : Disk) (n : ℕ) (text : Bytes) : List (Bytes × Bytes) → Int × Bytes
  | [] => (0, text)
  | it :: rest =>
      if disk.fwrite n ≠ 1 then (-1, text ++ szPaire it)
      else writeLines disk (n + 1) (text ++ szPaire it) rest

/-- `_WriteFIle()`: what it returns, and the file then. -/
def writeFile (disk : Disk) (file : Bytes) (order : List (Bytes × Bytes)) : Int × Bytes :=
  if disk.opens then
    let (ret, text) := writeLines disk 0 [] order
    (ret, text.take disk.flushed)
  else (-1, file)

/-- `it->second = value` or `config_map_.insert(make_pair(name, value))`. -/
def assign (config_map_ : Bytes → Option Bytes) (name value : Bytes) : Bytes → Option Bytes :=
  if (config_map_ name).isSome then Function.update config_map_ name (some value)
  else insert config_map_ name value

/-- `SetConfigValue(name, value)`, where `order` is how the map that it leaves
iterates: the reader, what it returns, and the file. -/
def setConfigValue (disk : Disk) (file : Bytes) (order : List (Bytes × Bytes))
    (r : CConfigFileReader) (name value : Bytes) : CConfigFileReader × Int × Bytes :=
  if r.load_ok_ then
    ({ r with config_map_ := assign r.config_map_ name value }, writeFile disk file order)
  else (r, -1, file)

end CConfigFileReader

end FileHub
