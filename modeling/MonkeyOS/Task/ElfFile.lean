import Mathlib.Data.List.DropRight
import MonkeyOS.Lib.Slice

/-!
# MonkeyOS — ELF files (`xmas_elf`, `tasks/elf.rs`)

An `ElfFile` borrows the buffer it was made from. Only what `ElfFile::new` reads is checked then; each
header is read from the buffer when it is asked for, with slices that panic outside of it.

* `ElfFile.new` — what is accepted as an ELF file;
* `programIter`, `interp` — the program headers, and the text of the interpreter header;
* `findSectionByName`, `getData` — the sections; `DynTables.relocate`, what `relocate` makes of two of
  them, and `relocate_isSome_iff`, the files it does not panic on;
* `ElfFile.elf` — what the loader reads of a static program; `table_in_file`, its header table is in
  the file;
* `ElfFile.dropped`, `detectLibcType_dropped` — a view of a buffer that was dropped finds no header.

`none` is a panic, and a `none` inside of it an error. The buffer is at a page boundary.
-/

namespace MonkeyOS

open Lib

/-- Sums of machine words wrap at `2^64`. -/
def wadd (a b : Nat) : Nat := (a + b) % 2 ^ 64

/-! ## What the loader reads -/

inductive PhKind where
  | load
  | interp
  | phdr
  | other
  deriving DecidableEq

structure ProgramHeader where
  /-- `get_type()`; `none` when it is an error -/
  kind : Option PhKind
  virtualAddr : Nat
  memSize : Nat
  fileSize : Nat
  offset : Nat
  deriving DecidableEq

structure Elf where
  entryPoint : Nat
  phOffset : Nat
  phCount : Nat
  phEntrySize : Nat
  headers : List ProgramHeader
  /-- whether `relocate` gives the base it was asked for; `none` when it panics -/
  relocates : Option Bool
  deriving DecidableEq

namespace Elf

def interp (elf : Elf) : Option ProgramHeader :=
  elf.headers.find? (fun ph => ph.kind == some .interp)

/-- `get_ph_addr().unwrap_or(0)`. -/
def phAddr (elf : Elf) : Nat :=
  match elf.headers.find? (fun ph => ph.kind == some .phdr) with
  | some phdr => phdr.virtualAddr
  | none =>
    match elf.headers.find? (fun ph => ph.kind == some .load && ph.offset == 0) with
    | some ph => wadd ph.virtualAddr elf.phOffset
    | none => 0

end Elf

/-! ## The file -/

inductive ElfClass where
  | none
  | thirtyTwo
  | sixtyFour
  | other
  deriving DecidableEq

/-- The buffer, and of the header only which of its two forms it has. -/
structure ElfFile where
  input : List UInt8
  /-- `HeaderPt2::Header64` -/
  wide : Bool
  deriving DecidableEq

def elfClass (input : List UInt8) : ElfClass :=
  match fieldLE input 4 1 with
  | 0 => .none
  | 1 => .thirtyTwo
  | 2 => .sixtyFour
  | _ => .other

namespace ElfFile

/-- `none` is an error here. -/
def new (input : List UInt8) : Option ElfFile :=
  if input.length < 16 then none
  else if input.take 4 ≠ [0x7f, 0x45, 0x4c, 0x46] then none
  else
    match elfClass input with
    | .none => none
    | .other => none
    | .thirtyTwo => if input.length < 16 + 36 then none else some ⟨input, false⟩
    | .sixtyFour => if input.length < 16 + 48 then none else some ⟨input, true⟩

variable (f : ElfFile)

/-- The size of a `P`. -/
def word : Nat := if f.wide then 8 else 4

def entryPoint : Nat := fieldLE f.input 24 f.word

def phOffset : Nat := fieldLE f.input (24 + f.word) f.word

def shOffset : Nat := fieldLE f.input (24 + 2 * f.word) f.word

def phEntrySize : Nat := fieldLE f.input (30 + 3 * f.word) 2

def phCount : Nat := fieldLE f.input (32 + 3 * f.word) 2

def shEntrySize : Nat := fieldLE f.input (34 + 3 * f.word) 2

def shCount : Nat := fieldLE f.input (36 + 3 * f.word) 2

def shStrIndex : Nat := fieldLE f.input (38 + 3 * f.word) 2

end ElfFile

/-! ## Program headers -/

/-- `Type_::as_type` -/
def PhKind.asType : Nat → Option PhKind
  | 0 => some .other
  | 1 => some .load
  | 2 => some .other
  | 3 => some .interp
  | 4 => some .other
  | 5 => some .other
  | 6 => some .phdr
  | 7 => some .other
  | t =>
    -- specific to the system, or to the processor
    if 0x60000000 ≤ t ∧ t ≤ 0x6fffffff ∨ 0x70000000 ≤ t ∧ t ≤ 0x7fffffff then some .other
    else none

def ProgramHeader.of32 (record : List UInt8) : ProgramHeader where
  kind := PhKind.asType (fieldLE record 0 4)
  offset := fieldLE record 4 4
  virtualAddr := fieldLE record 8 4
  fileSize := fieldLE record 16 4
  memSize := fieldLE record 20 4

def ProgramHeader.of64 (record : List UInt8) : ProgramHeader where
  kind := PhKind.asType (fieldLE record 0 4)
  offset := fieldLE record 8 8
  virtualAddr := fieldLE record 16 8
  fileSize := fieldLE record 32 8
  memSize := fieldLE record 40 8

namespace ElfFile

variable (f : ElfFile)

def programHeader (index : Nat) : Option (Option ProgramHeader) :=
  if index < f.phCount ∧ 0 < f.phOffset ∧ 0 < f.phEntrySize then
    -- a sum that wraps would be a slice that ends before it starts
    let start := f.phOffset + index * f.phEntrySize
    let stop := start + f.phEntrySize
    match elfClass f.input with
    | .thirtyTwo => (readPod f.input start stop 32 4).map (fun record => some (.of32 record))
    | .sixtyFour => (readPod f.input start stop 56 8).map (fun record => some (.of64 record))
    | .none => none
    | .other => none
  else some none

def programIter : Iter ProgramHeader := Iter.ofFn f.programHeader f.phCount 0

/-- `raw_data` of a program header, whose fields are added as they are. -/
def segmentData (ph : ProgramHeader) : Option (List UInt8) :=
  if ph.fileSize = 0 then some []
  else slice f.input ph.offset ((ph.offset + ph.fileSize) % 2 ^ (8 * f.word))

def findInterp : Option (Option ProgramHeader) :=
  f.programIter.search (fun ph => some (ph.kind == some .interp))

/-- The data of the interpreter header. -/
def interp : Option (Option (List UInt8)) :=
  f.findInterp.bind (fun
    | none => some none
    | some ph => (f.segmentData ph).map some)

end ElfFile

inductive LibcType where
  | musl
  | glibc
  | unknown
  deriving DecidableEq

def containsText (text : List Char) (part : String) : Bool :=
  text.tails.any (fun rest => part.toList.isPrefixOf rest)

/-- What the text of the interpreter header says. -/
def LibcType.ofInterp (data : List UInt8) : LibcType :=
  match String.fromUTF8? data.toByteArray with
  | none => .unknown
  | some interpPath =>
    let text := interpPath.toList.rdropWhile (fun c => c == '\x00')
    if containsText text "musl" then .musl
    else if containsText text "glibc" || containsText text "ld-linux" then .glibc
    else .unknown

def detectLibcType (f : ElfFile) : Option LibcType :=
  f.interp.map (fun
    | none => .unknown
    | some data => .ofInterp data)

/-! ## Sections -/

inductive ShKind where
  | null
  | progBits
  | symTab
  | strTab
  | rela
  | hash
  | dynamic
  | note
  | noBits
  | rel
  | shLib
  | dynSym
  | initArray
  | finiArray
  | preInitArray
  | group
  | symTabShIndex
  | osSpecific
  | processorSpecific
  | user
  deriving DecidableEq

/-- `ShType_::as_sh_type` -/
def ShKind.asShType : Nat → Option ShKind
  | 0 => some .null
  | 1 => some .progBits
  | 2 => some .symTab
  | 3 => some .strTab
  | 4 => some .rela
  | 5 => some .hash
  | 6 => some .dynamic
  | 7 => some .note
  | 8 => some .noBits
  | 9 => some .rel
  | 10 => some .shLib
  | 11 => some .dynSym
  | 14 => some .initArray
  | 15 => some .finiArray
  | 16 => some .preInitArray
  | 17 => some .group
  | 18 => some .symTabShIndex
  | t =>
    if 0x60000000 ≤ t ∧ t ≤ 0x6fffffff then some .osSpecific
    else if 0x70000000 ≤ t ∧ t ≤ 0x7fffffff then some .processorSpecific
    else if 0x80000000 ≤ t then some .user
    else none

structure SectionHeader where
  name : Nat
  kind : Option ShKind
  offset : Nat
  size : Nat

def SectionHeader.ofWord (w : Nat) (record : List UInt8) : SectionHeader where
  name := fieldLE record 0 4
  kind := ShKind.asShType (fieldLE record 4 4)
  offset := fieldLE record (8 + 2 * w) w
  size := fieldLE record (8 + 3 * w) w

/-- `read_str` -/
def readStr (input : List UInt8) : Option String :=
  if 0 ∈ input then String.fromUTF8? (input.takeWhile (· != 0)).toByteArray else none

/-- `SectionData`, as far as it is told apart. -/
inductive SectionData where
  /-- `Rela64`, of entries of 24 bytes -/
  | rela64 (data : List UInt8)
  /-- `DynSymbolTable64`, of entries of 24 bytes -/
  | dynSymbolTable64 (data : List UInt8)
  | other

/-- The size of an entry, for the sections that are arrays. -/
def ShKind.entrySize (w : Nat) : ShKind → Option Nat
  | .symTab => some (if w = 8 then 24 else 16)
  | .dynSym => some (if w = 8 then 24 else 16)
  | .initArray => some w
  | .finiArray => some w
  | .preInitArray => some w
  | .rela => some (3 * w)
  | .rel => some (2 * w)
  | .dynamic => some (2 * w)
  | _ => none

namespace ElfFile

variable (f : ElfFile)

def sectionHeader (index : Nat) : Option SectionHeader :=
  if index < 0xff00 then
    let start := index * f.shEntrySize + f.shOffset
    let stop := start + f.shEntrySize
    match elfClass f.input with
    | .thirtyTwo => (readPod f.input start stop 40 4).map (.ofWord 4)
    | .sixtyFour => (readPod f.input start stop 64 8).map (.ofWord 8)
    | .none => none
    | .other => none
  else none

def sectionIter : Iter SectionHeader :=
  Iter.ofFn (fun index => (f.sectionHeader index).map some) f.shCount 0

def getShstr (index : Nat) : Option String :=
  (f.sectionHeader f.shStrIndex).bind (fun header =>
    (sliceFrom f.input header.offset).bind (fun table =>
      (sliceFrom table index).bind readStr))

def sectionName (s : SectionHeader) : Option (Option String) :=
  match s.kind with
  | none => some none
  | some .null => some none
  | some _ => (f.getShstr s.name).map some

def findSectionByName (name : String) : Option (Option SectionHeader) :=
  f.sectionIter.search (fun s => (f.sectionName s).map (fun n => n == some name))

/-- `raw_data` of a section. -/
def sectionBytes (s : SectionHeader) : Option (List UInt8) :=
  slice f.input s.offset (wadd s.offset s.size)

def getData (s : SectionHeader) : Option (Option SectionData) :=
  match s.kind with
  | none => some none
  | some .null => some (some .other)
  | some .noBits => some (some .other)
  | some kind =>
    (f.sectionBytes s).bind (fun data =>
      match kind.entrySize f.word with
      | some size =>
        -- `read_array`
        if data.length % size = 0 ∧ s.offset % f.word = 0 then
          some (some (match kind, f.wide with
            | .rela, true => .rela64 data
            | .dynSym, true => .dynSymbolTable64 data
            | _, _ => .other))
        else none
      | none =>
        match kind with
        | .group =>
          if 4 ≤ data.length ∧ (data.length - 4) % 4 = 0 ∧ (s.offset + 4) % 4 = 0 then
            some (some .other)
          else none
        | .symTabShIndex =>
          if data.length % 4 = 0 ∧ s.offset % 4 = 0 then some (some .other) else none
        | .note =>
          if f.wide then
            if 12 ≤ data.length ∧ s.offset % 4 = 0 then some (some .other) else none
          else some none
        | .hash => if 12 ≤ data.length ∧ s.offset % 4 = 0 then some (some .other) else none
        | _ => some (some .other))

end ElfFile

/-! ## Relocations -/

/-- An entry of `.rela.dyn`. -/
structure Rela where
  kind : Nat
  symbol : Nat

/-- An entry of `.dynsym`. -/
structure DynSym where
  shndx : Nat
  /-- whether `get_name` gives no error -/
  named : Bool

/-- The two sections. One is an error when it is missing, corrupted or of another type. -/
structure DynTables where
  rela : Option (Option (List Rela))
  dynsym : Option (Option (List DynSym))

namespace Rela

/-- `REL_GOT`, `REL_PLT`, `R_RISCV_64` and `R_AARCH64_GLOBAL_DATA`. -/
def IsSymbol (e : Rela) : Prop := e.kind ∈ [6, 7, 2, 0x401]

/-- `REL_RELATIVE`, `R_RISCV_RELATIVE` and `R_AARCH64_RELATIVE`. -/
def IsRelative (e : Rela) : Prop := e.kind ∈ [8, 3, 0x403]

instance (e : Rela) : Decidable e.IsSymbol := inferInstanceAs (Decidable (_ ∈ _))

instance (e : Rela) : Decidable e.IsRelative := inferInstanceAs (Decidable (_ ∈ _))

end Rela

/-- `for entry in entries.iter()`; `none` is a panic, `some false` an error. -/
def relocateEntries (dynsym : List DynSym) : List Rela → Option Bool
  | [] => some true
  | e :: entries =>
    if e.IsSymbol then
      match dynsym[e.symbol]? with
      | none => none
      | some sym =>
        if sym.shndx = 0 then
          -- "need to find symbol", unless the name is an error before that
          if sym.named then none else some false
        else relocateEntries dynsym entries
    else if e.IsRelative then relocateEntries dynsym entries
    else none

/-- Whether `relocate` gives the base it was asked for. -/
def DynTables.relocate (t : DynTables) : Option Bool :=
  match t.rela with
  | none => none
  | some none => some false
  | some (some entries) =>
    match t.dynsym with
    | none => none
    | some none => some false
    | some (some dynsym) => relocateEntries dynsym entries

/-- The records of 24 bytes in the data of a section. -/
def records (data : List UInt8) : List (List UInt8) :=
  (List.range (data.length / 24)).map (fun i => (data.drop (24 * i)).take 24)

def Rela.ofRecord (record : List UInt8) : Rela where
  kind := fieldLE record 8 8 % 2 ^ 32
  symbol := fieldLE record 8 8 / 2 ^ 32

namespace ElfFile

variable (f : ElfFile)

def relaDyn : Option (Option (List Rela)) :=
  (f.findSectionByName ".rela.dyn").bind (fun
    | none => some none
    | some s => (f.getData s).map (fun
      | some (.rela64 data) => some ((records data).map .ofRecord)
      | _ => none))

/-- A name is looked for in `.dynstr`; where that is missing it is an error, and a panic as soon as it
cannot be read. -/
def hasDynstr : Bool :=
  match f.findSectionByName ".dynstr" with
  | some none => false
  | _ => true

def dynsym : Option (Option (List DynSym)) :=
  (f.findSectionByName ".dynsym").bind (fun
    | none => some none
    | some s => (f.getData s).map (fun
      | some (.dynSymbolTable64 data) =>
        some ((records data).map (fun record => ⟨fieldLE record 6 2, f.hasDynstr⟩))
      | _ => none))

def tables : DynTables := ⟨f.relaDyn, f.dynsym⟩

/-- What the loader reads of a static program. -/
def elf : Elf where
  entryPoint := f.entryPoint
  phOffset := f.phOffset
  phCount := f.phCount
  phEntrySize := f.phEntrySize
  headers := f.programIter.items
  relocates := f.tables.relocate

end ElfFile

/-! ## Files that are relocated -/

namespace Rela

/-- The loop goes on behind the entry. -/
def Passed (dynsym : List DynSym) (e : Rela) : Prop :=
  e.IsSymbol ∧ (∃ sym, dynsym[e.symbol]? = some sym ∧ sym.shndx ≠ 0) ∨ e.IsRelative

/-- The loop ends with an error. -/
def Nameless (dynsym : List DynSym) (e : Rela) : Prop :=
  e.IsSymbol ∧ ∃ sym, dynsym[e.symbol]? = some sym ∧ sym.shndx = 0 ∧ sym.named = false

end Rela

/-- The loop comes to its end, or to an entry that is an error. -/
inductive Relocatable (dynsym : List DynSym) : List Rela → Prop where
  | done : Relocatable dynsym []
  | error {e : Rela} {entries : List Rela} (h : e.Nameless dynsym) :
      Relocatable dynsym (e :: entries)
  | next {e : Rela} {entries : List Rela} (h : e.Passed dynsym)
      (hrest : Relocatable dynsym entries) : Relocatable dynsym (e :: entries)

theorem relocateEntries_isSome_iff {dynsym : List DynSym} {entries : List Rela} :
    (relocateEntries dynsym entries).isSome = true ↔ Relocatable dynsym entries := by
  induction entries with
  | nil => exact ⟨fun _ => .done, fun _ => rfl⟩
  | cons e entries ih =>
    unfold relocateEntries
    constructor
    · intro h
      split at h
      · rename_i hsymbol
        split at h
        · cases h
        rename_i sym hsym
        split at h
        · rename_i hundefined
          split at h
          · cases h
          · rename_i hname
            exact .error ⟨hsymbol, sym, hsym, hundefined, by simpa using hname⟩
        · rename_i hdefined
          exact .next (.inl ⟨hsymbol, sym, hsym, hdefined⟩) (ih.mp h)
      · split at h
        · rename_i hrelative
          exact .next (.inr hrelative) (ih.mp h)
        · cases h
    · intro h
      cases h with
      | error h =>
        obtain ⟨hsymbol, sym, hsym, hundefined, hname⟩ := h
        rw [if_pos hsymbol, hsym]
        simp only [hundefined, if_true, hname]
        rfl
      | next h hrest =>
        rcases h with ⟨hsymbol, sym, hsym, hdefined⟩ | hrelative
        · rw [if_pos hsymbol, hsym]
          simp only [if_neg hdefined]
          exact ih.mpr hrest
        · -- no type is of both kinds
          have hsymbol : ¬ e.IsSymbol := by
            unfold Rela.IsRelative at hrelative
            unfold Rela.IsSymbol
            simp only [List.mem_cons, List.not_mem_nil, or_false] at hrelative ⊢
            omega
          rw [if_neg hsymbol, if_pos hrelative]
          exact ih.mpr hrest

/-- The files `relocate` does not panic on: the sections are read, and the loop passes the entries. -/
def DynTables.Sound (t : DynTables) : Prop :=
  t.rela ≠ none ∧ ∀ entries, t.rela = some (some entries) →
    t.dynsym ≠ none ∧ ∀ dynsym, t.dynsym = some (some dynsym) → Relocatable dynsym entries

theorem DynTables.relocate_isSome_iff (t : DynTables) : t.relocate.isSome = true ↔ t.Sound := by
  unfold relocate Sound
  rcases t.rela with _ | _ | entries
  · simp
  · simp
  · rcases t.dynsym with _ | _ | dynsym
    · simp
    · simp
    · simp [relocateEntries_isSome_iff]

/-! ## The header table -/

namespace ElfFile

variable {f : ElfFile}

theorem programHeader_error {index : Nat} (h : f.programHeader index = some none) :
    ¬ (index < f.phCount ∧ 0 < f.phOffset ∧ 0 < f.phEntrySize) := by
  unfold programHeader at h
  split at h
  · simp only at h
    split at h
    · simp at h
    · simp at h
    · cases h
    · cases h
  · assumption

theorem programHeader_in_file {index : Nat} {ph : ProgramHeader}
    (h : f.programHeader index = some (some ph)) :
    (index < f.phCount ∧ 0 < f.phOffset ∧ 0 < f.phEntrySize)
      ∧ f.phOffset + (index + 1) * f.phEntrySize ≤ f.input.length := by
  unfold programHeader at h
  split at h
  · rename_i hindex
    refine ⟨hindex, ?_⟩
    rw [Nat.succ_mul, ← Nat.add_assoc]
    simp only at h
    split at h
    · obtain ⟨record, hread, -⟩ := Option.map_eq_some_iff.mp h
      exact readPod_le hread
    · obtain ⟨record, hread, -⟩ := Option.map_eq_some_iff.mp h
      exact readPod_le hread
    · cases h
    · cases h
  · cases h

theorem findInterp_of_interp (h : f.interp = some none) : f.findInterp = some none := by
  obtain ⟨found, hfind, hdata⟩ := Option.bind_eq_some_iff.mp h
  cases found with
  | none => exact hfind
  | some ph => simp at hdata

/-- A static program with a header has all of them: the search for the interpreter went through the
whole table. -/
theorem table_in_file (h : f.findInterp = some none) (hheaders : f.programIter.items ≠ []) :
    f.programIter.items.length = f.phCount
      ∧ f.phOffset + f.phCount * f.phEntrySize ≤ f.input.length := by
  unfold findInterp programIter at *
  have hfirst : ∃ ph, f.programHeader 0 = some (some ph) := by
    cases hcount : f.phCount with
    | zero =>
      rw [hcount] at hheaders
      exact absurd rfl hheaders
    | succ count =>
      rw [hcount] at hheaders
      unfold Iter.ofFn at hheaders
      rcases hread : f.programHeader 0 with _ | _ | ph
      · rw [hread] at hheaders
        exact absurd rfl hheaders
      · rw [hread] at hheaders
        exact absurd rfl hheaders
      · exact ⟨ph, rfl⟩
  obtain ⟨ph, hfirst⟩ := hfirst
  obtain ⟨⟨hcount, htable⟩, -⟩ := programHeader_in_file hfirst
  have hok : ∀ i, i < f.phCount → f.programHeader (0 + i) ≠ some none := by
    intro i hi herror
    rw [Nat.zero_add] at herror
    exact programHeader_error herror ⟨hi, htable⟩
  obtain ⟨hlength, hread⟩ := Iter.search_ofFn h hok
  refine ⟨hlength, ?_⟩
  obtain ⟨last, hlast⟩ := hread (f.phCount - 1) (by omega)
  have hend := (programHeader_in_file hlast).2
  rw [Nat.zero_add, Nat.sub_add_cancel hcount] at hend
  exact hend

end ElfFile

/-! ## A buffer that was dropped -/

/-- The view of a buffer whose frames are dropped: dropping a frame clears it. -/
def ElfFile.dropped (f : ElfFile) : ElfFile :=
  { f with input := List.replicate f.input.length 0 }

/-- No type is found in what was dropped. -/
theorem detectLibcType_dropped (f : ElfFile) : detectLibcType f.dropped = some .unknown := by
  have hcount : f.dropped.phCount = 0 := fieldLE_zeros _ _ _
  unfold detectLibcType ElfFile.interp ElfFile.findInterp ElfFile.programIter
  rw [hcount]
  rfl

end MonkeyOS
