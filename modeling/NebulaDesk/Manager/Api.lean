/-
The vocabulary of the manager's handlers (`nebula-manager/src/error.rs`,
`nebula-manager/src/auth/extract.rs`, `nebula-manager/src/routes/workspace.rs`).
-/
import NebulaDesk.Proto.Surface

namespace NebulaDesk

/-- A failure that is rendered as an HTTP response. -/
inductive ApiError
  | badRequest (message : String)
  | unauthorized
  | forbidden (message : String)
  | notFound (entity : String)
  | conflict (message : String)
  | tooManyRequests
  | database
  | internal
deriving DecidableEq, Repr

inductive UserRole
  | user
  | admin
  | owner
deriving DecidableEq, Repr

def UserRole.isAdmin : UserRole → Bool
  | user => false
  | admin | owner => true

structure AuthUser where
  id : ℕ
  tenant : ℕ
  role : UserRole
deriving DecidableEq, Repr

/-- Characters with the Unicode property `White_Space`. -/
def isWhiteSpace (c : Char) : Bool :=
  (0x09 ≤ c.toNat && c.toNat ≤ 0x0D) || c.toNat = 0x20 || c.toNat = 0x85 || c.toNat = 0xA0 ||
    c.toNat = 0x1680 || (0x2000 ≤ c.toNat && c.toNat ≤ 0x200A) || c.toNat = 0x2028 ||
    c.toNat = 0x2029 || c.toNat = 0x202F || c.toNat = 0x205F || c.toNat = 0x3000

/-- `path.trim().is_empty()`. -/
def isBlank (path : Text) : Bool := path.all isWhiteSpace

/-- `str::trim`. -/
def trim (s : Text) : Text := ((s.dropWhile isWhiteSpace).reverse.dropWhile isWhiteSpace).reverse

/-- `validate_name`. -/
def validateName (name : Text) (field : String) : Except ApiError Unit :=
  if isBlank name || 200 < name.len || name.any isControl then
    .error (.badRequest (field ++ " must contain 1–200 bytes of text"))
  else .ok ()

/-- `normalize_email`. -/
def normalizeEmail (email : Text) : Except ApiError Text :=
  if 254 < email.len then .error (.badRequest "invalid email address")
  else
    let email := (trim email).map Char.toLower
    let user := email.takeWhile (· ≠ '@')
    let domain := (email.dropWhile (· ≠ '@')).drop 1
    if '@' ∈ email && !user.isEmpty && !domain.isEmpty && '@' ∉ domain &&
        !email.any (fun c => isWhiteSpace c || isControl c) then .ok email
    else .error (.badRequest "invalid email address")

example : normalizeEmail " Ann@Example.org ".toList = .ok "ann@example.org".toList := by decide

end NebulaDesk
