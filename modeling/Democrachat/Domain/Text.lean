import Mathlib.Data.List.Basic

/-!
# Names and handles

The string functions the services run on what a client sends: trimming
(`str::trim`), `domain/src/server/slugify.rs`,
`domain/src/chat/normalize_channel_name.rs`,
`domain/src/roles/normalize_role_name.rs` and
`domain/src/emoji_ranking/normalize_emoji_name.rs`.
-/

namespace Democrachat

/-- `char::is_whitespace`: the code points with the Unicode `White_Space`
property. -/
def isWhitespace (c : Char) : Bool :=
  let n := c.toNat
  (9 ≤ n && n ≤ 13) || n == 0x20 || n == 0x85 || n == 0xA0 || n == 0x1680 ||
    (0x2000 ≤ n && n ≤ 0x200A) || n == 0x2028 || n == 0x2029 || n == 0x202F ||
    n == 0x205F || n == 0x3000

def trimChars (cs : List Char) : List Char :=
  ((cs.dropWhile isWhitespace).reverse.dropWhile isWhitespace).reverse

def trim (s : String) : String := String.ofList (trimChars s.toList)

/-- `char::is_ascii_alphanumeric`. -/
def isAsciiAlphanumeric (c : Char) : Bool := c.isAlphanum

/-- The loop of `slugify`: what was written so far and whether a hyphen is due
before the next kept character. -/
def slugifyChars (out : List Char) (pendingHyphen : Bool) : List Char → List Char
  | [] => out
  | c :: cs =>
    if isAsciiAlphanumeric c then
      let out := if pendingHyphen && !out.isEmpty then out ++ ['-'] else out
      slugifyChars (out ++ [c.toLower]) false cs
    else
      slugifyChars out true cs

def slugify (input : String) : String :=
  String.ofList (slugifyChars [] false input.toList)

/-- The same loop stands in `normalize_channel_name.rs`: "channels and servers
share the convention". -/
def normalizeChannelName (input : String) : String :=
  String.ofList (slugifyChars [] false input.toList)

/-- `str::to_lowercase`, as far as `normalizeRoleName` can tell: U+212A and
U+0130 are the only characters outside ASCII whose lowercase has an ASCII
character in it, and no lowercase mapping makes or removes whitespace. -/
def toLowercase (c : Char) : List Char :=
  if c = '\u212A' then ['k']
  else if c = '\u0130' then ['i', '\u0307']
  else [c.toLower]

/-- The loop of `normalize_role_name`: what was written so far and whether the
last character written is a hyphen. -/
def roleNameChars (out : List Char) (prevDash : Bool) : List Char → List Char
  | [] => out
  | c :: cs =>
    if isAsciiAlphanumeric c || c == '_' then
      roleNameChars (out ++ [c]) false cs
    else if (isWhitespace c || c == '-') && !out.isEmpty && !prevDash then
      roleNameChars (out ++ ['-']) true cs
    else
      roleNameChars out prevDash cs

def normalizeRoleName (raw : String) : String :=
  let out := roleNameChars [] false ((trimChars raw.toList).flatMap toLowercase)
  String.ofList (out.reverse.dropWhile (· == '-')).reverse

def normalizeEmojiName (input : String) : String :=
  String.ofList ((input.toList.filter
    (fun c => isAsciiAlphanumeric c || c == '-' || c == '_')).map Char.toLower)

end Democrachat
