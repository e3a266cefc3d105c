import Mathlib.Data.Nat.Notation

/-!
# Images of custom emojis

`domain/src/emoji_image`: the two formats, told by their headers.
-/

namespace Democrachat

inductive EmojiImageFormat where
  | png | gif
deriving DecidableEq

def EmojiImageFormat.mime : EmojiImageFormat → String
  | png => "image/png"
  | gif => "image/gif"

inductive EmojiImageError where
  | empty
  | tooLarge (actual limit : Nat)
  | unsupportedFormat
  | truncated
  | emptyDimensions
  | tooBig (width height max : Nat)
deriving DecidableEq

def EmojiImageError.display : EmojiImageError → String
  | empty => "no image data"
  | tooLarge actual limit =>
    "image is " ++ toString actual ++ " bytes; the limit is " ++ toString limit
  | unsupportedFormat => "unrecognized image format (only PNG and GIF are allowed)"
  | truncated => "image header is truncated"
  | emptyDimensions => "image has zero width or height"
  | tooBig width height max =>
    "image is " ++ toString width ++ "×" ++ toString height ++ "; the limit is " ++
      toString max ++ "×" ++ toString max

def maxEmojiImageBytes : Nat := 256 * 1024

def maxEmojiImageDimension : Nat := 256

def pngMagic : List UInt8 := [0x89, 0x50, 0x4e, 0x47, 0x0d, 0x0a, 0x1a, 0x0a]

/-- `GIF87a` and `GIF89a`. -/
def gifMagics : List (List UInt8) :=
  [[0x47, 0x49, 0x46, 0x38, 0x37, 0x61], [0x47, 0x49, 0x46, 0x38, 0x39, 0x61]]

/-- `from_be_bytes`. -/
def ofBigEndian (bytes : List UInt8) : Nat := bytes.foldl (fun n b => 256 * n + b.toNat) 0

/-- `from_le_bytes`. -/
def ofLittleEndian (bytes : List UInt8) : Nat := ofBigEndian bytes.reverse

/-- The format and the dimensions that the header declares. -/
def sniff (bytes : List UInt8) : Except EmojiImageError (EmojiImageFormat × Nat × Nat) :=
  if pngMagic.isPrefixOf bytes then
    if bytes.length < 24 then .error .truncated
    else .ok (.png, ofBigEndian ((bytes.drop 16).take 4), ofBigEndian ((bytes.drop 20).take 4))
  else if gifMagics.any (·.isPrefixOf bytes) then
    if bytes.length < 10 then .error .truncated
    else .ok (.gif, ofLittleEndian ((bytes.drop 6).take 2), ofLittleEndian ((bytes.drop 8).take 2))
  else .error .unsupportedFormat

def validateEmojiImage (bytes : List UInt8) : Except EmojiImageError EmojiImageFormat :=
  if bytes = [] then .error .empty
  else if bytes.length > maxEmojiImageBytes then
    .error (.tooLarge bytes.length maxEmojiImageBytes)
  else
    match sniff bytes with
    | .error e => .error e
    | .ok (format, width, height) =>
      if width = 0 ∨ height = 0 then .error .emptyDimensions
      else if width > maxEmojiImageDimension ∨ height > maxEmojiImageDimension then
        .error (.tooBig width height maxEmojiImageDimension)
      else .ok format

end Democrachat
