import Democrachat.Domain.Text

/-!
# Password and email policy

`domain/src/credentials` and `app/src/email/mod.rs`.
-/

namespace Democrachat

/-- `str::split_once`. -/
def splitOnce (c : Char) (cs : List Char) : Option (List Char × List Char) :=
  if c ∈ cs then some (cs.takeWhile (· != c), (cs.dropWhile (· != c)).drop 1) else none

/-- `str::rsplit_once`. -/
def rsplitOnce (c : Char) (cs : List Char) : Option (List Char × List Char) :=
  (splitOnce c cs.reverse).map (fun (after, before) => (before.reverse, after.reverse))

/-- `str::to_ascii_lowercase`. -/
def toAsciiLowercase (s : String) : String := String.ofList (s.toList.map Char.toLower)

inductive PasswordError where
  | tooShort | tooLong
deriving DecidableEq

def PasswordError.display : PasswordError → String
  | tooShort => "password must be at least 16 characters"
  | tooLong => "password must be at most 256 characters"

def minPasswordLen : Nat := 16

def maxPasswordLen : Nat := 256

/-- Length only, in bytes; a password is never trimmed. -/
def validatePassword (password : String) : Except PasswordError Unit :=
  let len := password.utf8ByteSize
  if len < minPasswordLen then .error .tooShort
  else if len > maxPasswordLen then .error .tooLong
  else .ok ()

inductive EmailError where
  | empty | tooLong | malformed
deriving DecidableEq

def EmailError.display : EmailError → String
  | empty => "email must not be empty"
  | tooLong => "email must be at most 254 characters"
  | malformed => "email is not a valid address"

def maxEmailLen : Nat := 254

def validateEmail (email : String) : Except EmailError Unit :=
  let email := trim email
  if email.isEmpty then .error .empty
  else if email.utf8ByteSize > maxEmailLen then .error .tooLong
  else if email.toList.any isWhitespace then .error .malformed
  else
    match splitOnce '@' email.toList with
    | none => .error .malformed
    | some (local_, domain) =>
      if local_.isEmpty || domain.contains '@' then .error .malformed
      else
        match rsplitOnce '.' domain with
        | some (host, tld) =>
          if !host.isEmpty && !tld.isEmpty then .ok () else .error .malformed
        | none => .error .malformed

/-- Only for comparing addresses, never for delivery. -/
def normalizeEmail (email : String) : String := toAsciiLowercase (trim email)

end Democrachat
