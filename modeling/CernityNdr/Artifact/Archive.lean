import CernityNdr.Framework.Affix
import CernityNdr.Framework.Failing

/-! # Archives of Carved Files

    The model of `validate_archive` of `services/file-artifact/store.py`. The
    zip reader is a parameter, a function of the bytes; an error it raises is
    either one that the code turns into a rejection, or another one.

    * `validateArchive_iff`: an archive passes exactly when its entries stay
      under the root and are small and readable, at every level of nesting. -/

namespace FileArtifact

abbrev Bytes := List UInt8

/-! ### The zip reader -/

/-- An error of `zipfile`: whether the `except` clause around the call names
    it. -/
inductive ZipError
  | named
  | unnamed

structure ZipInfo where
  filename : List Char
  fileSize : Nat
  /-- `zf.read(info)` -/
  content : Except ZipError Bytes

/-- The functions of `zipfile`. -/
structure Zipfile where
  isZipfile : Bytes → Bool
  /-- `ZipFile(data).infolist()` -/
  infolist : Bytes → Except ZipError (List ZipInfo)

/-- `info.is_dir()`. -/
def ZipInfo.isDir (info : ZipInfo) : Bool := decide (info.filename.getLast? = some '/')

/-- The ways a call of `store` raises. All but `infra` and `malformedEvent`
    are a `PolicyError`. -/
inductive Refusal
  | tooDeep
  | malformedArchive
  | escapesRoot (name : List Char)
  | memberTooLarge
  | unreadableMember
  | notTenantScoped
  | tooLarge
  | wrongDigest
  | infra
  | malformedEvent

/-! ### Paths -/

/-- One component of a relative path in `os.path.normpath`. -/
def normStep (comps : List (List Char)) (comp : List Char) : List (List Char) :=
  if comp = [] ∨ comp = ['.'] then comps
  else if comp ≠ ['.', '.'] ∨ comps = [] ∨ comps.getLast? = some ['.', '.'] then comps ++ [comp]
  else comps.dropLast

/-- `os.path.normpath` of a relative path. -/
def normpath (path : List Char) : List Char :=
  let comps := (path.splitOn '/').foldl normStep []
  if comps = [] then ['.'] else List.intercalate ['/'] comps

def EXTRACT_ROOT : List Char := "artifacts".toList

/-- `_escapes_root`. -/
def escapesRoot (name : List Char) : Bool :=
  if name.isEmpty || decide (name.head? = some '/') || decide (name.head? = some '\\') ||
      decide ('\\' ∈ name) then true
  else
    let dest := normpath (EXTRACT_ROOT ++ '/' :: name)
    decide (dest ≠ EXTRACT_ROOT) && !(EXTRACT_ROOT ++ ['/']).isPrefixOf dest

/-! ### Validation -/

/-- The first bytes of a zip file: `PK`, and the kind of its first record. -/
def MAGIC : List Bytes := [[80, 75, 3, 4], [80, 75, 5, 6], [80, 75, 7, 8]]

/-- `is_zip`. -/
def isZip (z : Zipfile) (data : Bytes) : Bool := decide (data.take 4 ∈ MAGIC) || z.isZipfile data

/-- One entry of an archive; a nested archive goes to `nested`. -/
def validateEntry (z : Zipfile) (maxFileSize : Int) (nested : Bytes → Except Refusal Unit)
    (info : ZipInfo) : Except Refusal Unit :=
  if escapesRoot info.filename then .error (.escapesRoot info.filename)
  -- a directory has no bytes to bound, but its path is checked as well
  else if info.isDir then .ok ()
  else if maxFileSize < info.fileSize then .error .memberTooLarge
  else
    match info.content with
    | .error .named => .error .unreadableMember
    | .error .unnamed => .error .infra
    | .ok member => if isZip z member then nested member else .ok ()

/-- `validate_archive`, with the levels of nesting that are left. -/
def validateArchive (z : Zipfile) (maxFileSize : Int) : Nat → Bytes → Except Refusal Unit
  | 0, data => if isZip z data then .error .tooDeep else .ok ()
  | levels + 1, data =>
    if isZip z data then
      match z.infolist data with
      | .error .named => .error .malformedArchive
      | .error .unnamed => .error .infra
      | .ok entries => entries.forM (validateEntry z maxFileSize (validateArchive z maxFileSize levels))
    else .ok ()

/-! ### What passes -/

/-- An entry that may be stored, with `Inner` for what is nested in it. -/
def SafeEntry (z : Zipfile) (maxFileSize : Int) (Inner : Bytes → Prop) (info : ZipInfo) : Prop :=
  escapesRoot info.filename = false ∧
    (info.isDir = false → info.fileSize ≤ maxFileSize ∧
      ∃ member, info.content = .ok member ∧ (isZip z member = true → Inner member))

/-- Bytes that may be stored: no archive, or an archive of safe entries within
    the levels of nesting. -/
def SafeArchive (z : Zipfile) (maxFileSize : Int) : Nat → Bytes → Prop
  | 0, data => isZip z data = false
  | levels + 1, data => isZip z data = true → ∃ entries, z.infolist data = .ok entries ∧
      ∀ info ∈ entries, SafeEntry z maxFileSize (SafeArchive z maxFileSize levels) info

variable {z : Zipfile} {maxFileSize : Int}

theorem validateEntry_iff {nested : Bytes → Except Refusal Unit} {Inner : Bytes → Prop}
    (h : ∀ data, nested data = .ok () ↔ Inner data) (info : ZipInfo) :
    validateEntry z maxFileSize nested info = .ok () ↔ SafeEntry z maxFileSize Inner info := by
  unfold validateEntry SafeEntry
  by_cases hescapes : escapesRoot info.filename = true
  · rw [if_pos hescapes]
    exact iff_of_false nofun fun hsafe => absurd (hescapes.symm.trans hsafe.1) nofun
  · rw [if_neg hescapes]
    have hstays := eq_false_of_ne_true hescapes
    by_cases hdir : info.isDir = true
    · rw [if_pos hdir]
      exact iff_of_true rfl ⟨hstays, fun hfile => absurd (hdir.symm.trans hfile) nofun⟩
    · rw [if_neg hdir]
      have hfile := eq_false_of_ne_true hdir
      by_cases hlarge : maxFileSize < info.fileSize
      · rw [if_pos hlarge]
        exact iff_of_false nofun fun hsafe => absurd (hsafe.2 hfile).1 (Int.not_le.mpr hlarge)
      · rw [if_neg hlarge]
        have hsmall := Int.not_lt.mp hlarge
        cases hcontent : info.content with
        | error e =>
          refine iff_of_false ?_ fun hsafe => ?_
          · cases e with
            | named => exact nofun
            | unnamed => exact nofun
          · obtain ⟨member, hmember, -⟩ := (hsafe.2 hfile).2
            cases hmember
        | ok member =>
          by_cases hzip : isZip z member = true
          · simp only [hzip, if_true, h]
            constructor
            · exact fun hinner => ⟨hstays, fun _ => ⟨hsmall, member, rfl, fun _ => hinner⟩⟩
            · intro hsafe
              obtain ⟨member', hmember, hinner⟩ := (hsafe.2 hfile).2
              cases hmember
              exact hinner hzip
          · simp only [hzip, if_false, Bool.false_eq_true]
            exact iff_of_true trivial
              ⟨hstays, fun _ => ⟨hsmall, member, rfl, fun hzip' => absurd hzip' hzip⟩⟩

/-- **What passes validation**: the levels go down with the nesting. -/
theorem validateArchive_iff (levels : Nat) (data : Bytes) :
    validateArchive z maxFileSize levels data = .ok () ↔ SafeArchive z maxFileSize levels data := by
  induction levels generalizing data with
  | zero =>
    rw [validateArchive, SafeArchive]
    by_cases hzip : isZip z data = true
    · rw [if_pos hzip, hzip]
      exact iff_of_false nofun nofun
    · rw [if_neg hzip]
      exact iff_of_true rfl (eq_false_of_ne_true hzip)
  | succ levels ih =>
    rw [validateArchive, SafeArchive]
    by_cases hzip : isZip z data = true
    · rw [if_pos hzip]
      cases hlist : z.infolist data with
      | error e =>
        refine iff_of_false ?_ fun hsafe => ?_
        · cases e with
          | named => exact nofun
          | unnamed => exact nofun
        · obtain ⟨entries, hentries, -⟩ := hsafe hzip
          cases hentries
      | ok entries =>
        dsimp only
        rw [Except.forM_eq_ok]
        constructor
        · intro hall _
          exact ⟨entries, rfl, fun info hinfo => (validateEntry_iff ih info).mp (hall info hinfo)⟩
        · intro hsafe info hinfo
          obtain ⟨entries', hentries, hall⟩ := hsafe hzip
          cases hentries
          exact (validateEntry_iff ih info).mpr (hall info hinfo)
    · rw [if_neg hzip]
      exact iff_of_true rfl fun hzip' => absurd hzip' hzip

end FileArtifact
