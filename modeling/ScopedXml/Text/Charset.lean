import ScopedXml.Text.WhiteSpace
import ScopedXml.Text.Utf8
import ScopedXml.Text.Utf16
import ScopedXml.Text.Windows1252
import ScopedXml.Text.Iso2022Jp

/-!
# Character encodings

An encoding is found by label (`Charset.ofLabel?`). UTF-8, UTF-16, windows-1252 and ISO-2022-JP are
decoded here, and `replacement` decodes nothing. The decoders of all other encodings are tables of
their own and are taken from outside (`Decoders`): what is said of decoding holds whatever they do.

* `Charset.decode?`: the text of a whole byte string, or `none` if it has none.
* `Charset.decodeMarked`: the same, where a byte order mark is left out and decides.
-/

namespace ScopedXml.Text

/-- The decoders of encodings that are known here by name only. -/
class Decoders where
  /-- The text of a byte string in the encoding of this name, or `none` if it has none. -/
  decode? (name : String) (bytes : List UInt8) : Option String

inductive Charset
  | utf8
  | utf16 (order : Utf16.Order)
  | windows1252
  | iso2022Jp
  /-- Stands for encodings that are known by name but never decoded. -/
  | replacement
  /-- An encoding that extends ASCII, decoded by the `Decoders`. -/
  | asciiBased (name : String)
deriving DecidableEq

namespace Charset

def name : Charset → String
  | utf8 => "UTF-8"
  | utf16 .littleEndian => "UTF-16LE"
  | utf16 .bigEndian => "UTF-16BE"
  | windows1252 => "windows-1252"
  | iso2022Jp => "ISO-2022-JP"
  | replacement => "replacement"
  | asciiBased n => n

/-- Whether every ASCII byte stands for itself, in any state of the decoder. -/
def isAsciiCompatible : Charset → Bool
  | utf8 => true
  | utf16 _ => false
  | windows1252 => true
  | iso2022Jp => false
  | replacement => false
  | asciiBased _ => true

/-- The labels of each encoding, in lower case. -/
def labels : List (Charset × List String) :=
  [(.utf8, ["unicode-1-1-utf-8", "unicode11utf8", "unicode20utf8", "utf-8", "utf8",
     "x-unicode20utf8"]),
   (.utf16 .littleEndian, ["csunicode", "iso-10646-ucs-2", "ucs-2", "unicode", "unicodefeff",
     "utf-16", "utf-16le"]),
   (.utf16 .bigEndian, ["unicodefffe", "utf-16be"]),
   (.windows1252, ["ansi_x3.4-1968", "ascii", "cp1252", "cp819", "csisolatin1", "ibm819",
     "iso-8859-1", "iso-ir-100", "iso8859-1", "iso88591", "iso_8859-1", "iso_8859-1:1987", "l1",
     "latin1", "us-ascii", "windows-1252", "x-cp1252"]),
   (.replacement, ["csiso2022kr", "hz-gb-2312", "iso-2022-cn", "iso-2022-cn-ext", "iso-2022-kr",
     "replacement"]),
   (.asciiBased "Big5", ["big5", "big5-hkscs", "cn-big5", "csbig5", "x-x-big5"]),
   (.asciiBased "EUC-JP", ["cseucpkdfmtjapanese", "euc-jp", "x-euc-jp"]),
   (.asciiBased "EUC-KR", ["cseuckr", "csksc56011987", "euc-kr", "iso-ir-149", "korean",
     "ks_c_5601-1987", "ks_c_5601-1989", "ksc5601", "ksc_5601", "windows-949"]),
   (.asciiBased "GBK", ["chinese", "csgb2312", "csiso58gb231280", "gb2312", "gb_2312",
     "gb_2312-80", "gbk", "iso-ir-58", "x-gbk"]),
   (.asciiBased "IBM866", ["866", "cp866", "csibm866", "ibm866"]),
   (.iso2022Jp, ["csiso2022jp", "iso-2022-jp"]),
   (.asciiBased "ISO-8859-10", ["csisolatin6", "iso-8859-10", "iso-ir-157", "iso8859-10",
     "iso885910", "l6", "latin6"]),
   (.asciiBased "ISO-8859-13", ["iso-8859-13", "iso8859-13", "iso885913"]),
   (.asciiBased "ISO-8859-14", ["iso-8859-14", "iso8859-14", "iso885914"]),
   (.asciiBased "ISO-8859-15", ["csisolatin9", "iso-8859-15", "iso8859-15", "iso885915",
     "iso_8859-15", "l9"]),
   (.asciiBased "ISO-8859-16", ["iso-8859-16"]),
   (.asciiBased "ISO-8859-2", ["csisolatin2", "iso-8859-2", "iso-ir-101", "iso8859-2", "iso88592",
     "iso_8859-2", "iso_8859-2:1987", "l2", "latin2"]),
   (.asciiBased "ISO-8859-3", ["csisolatin3", "iso-8859-3", "iso-ir-109", "iso8859-3", "iso88593",
     "iso_8859-3", "iso_8859-3:1988", "l3", "latin3"]),
   (.asciiBased "ISO-8859-4", ["csisolatin4", "iso-8859-4", "iso-ir-110", "iso8859-4", "iso88594",
     "iso_8859-4", "iso_8859-4:1988", "l4", "latin4"]),
   (.asciiBased "ISO-8859-5", ["csisolatincyrillic", "cyrillic", "iso-8859-5", "iso-ir-144",
     "iso8859-5", "iso88595", "iso_8859-5", "iso_8859-5:1988"]),
   (.asciiBased "ISO-8859-6", ["arabic", "asmo-708", "csiso88596e", "csiso88596i",
     "csisolatinarabic", "ecma-114", "iso-8859-6", "iso-8859-6-e", "iso-8859-6-i", "iso-ir-127",
     "iso8859-6", "iso88596", "iso_8859-6", "iso_8859-6:1987"]),
   (.asciiBased "ISO-8859-7", ["csisolatingreek", "ecma-118", "elot_928", "greek", "greek8",
     "iso-8859-7", "iso-ir-126", "iso8859-7", "iso88597", "iso_8859-7", "iso_8859-7:1987",
     "sun_eu_greek"]),
   (.asciiBased "ISO-8859-8", ["csiso88598e", "csisolatinhebrew", "hebrew", "iso-8859-8",
     "iso-8859-8-e", "iso-ir-138", "iso8859-8", "iso88598", "iso_8859-8", "iso_8859-8:1988",
     "visual"]),
   (.asciiBased "ISO-8859-8-I", ["csiso88598i", "iso-8859-8-i", "logical"]),
   (.asciiBased "KOI8-R", ["cskoi8r", "koi", "koi8", "koi8-r", "koi8_r"]),
   (.asciiBased "KOI8-U", ["koi8-ru", "koi8-u"]),
   (.asciiBased "Shift_JIS", ["csshiftjis", "ms932", "ms_kanji", "shift-jis", "shift_jis", "sjis",
     "windows-31j", "x-sjis"]),
   (.asciiBased "gb18030", ["gb18030"]),
   (.asciiBased "macintosh", ["csmacintosh", "mac", "macintosh", "x-mac-roman"]),
   (.asciiBased "windows-1250", ["cp1250", "windows-1250", "x-cp1250"]),
   (.asciiBased "windows-1251", ["cp1251", "windows-1251", "x-cp1251"]),
   (.asciiBased "windows-1253", ["cp1253", "windows-1253", "x-cp1253"]),
   (.asciiBased "windows-1254", ["cp1254", "csisolatin5", "iso-8859-9", "iso-ir-148", "iso8859-9",
     "iso88599", "iso_8859-9", "iso_8859-9:1989", "l5", "latin5", "windows-1254", "x-cp1254"]),
   (.asciiBased "windows-1255", ["cp1255", "windows-1255", "x-cp1255"]),
   (.asciiBased "windows-1256", ["cp1256", "windows-1256", "x-cp1256"]),
   (.asciiBased "windows-1257", ["cp1257", "windows-1257", "x-cp1257"]),
   (.asciiBased "windows-1258", ["cp1258", "windows-1258", "x-cp1258"]),
   (.asciiBased "windows-874", ["dos-874", "iso-8859-11", "iso8859-11", "iso885911", "tis-620",
     "windows-874"]),
   (.asciiBased "x-mac-cyrillic", ["x-mac-cyrillic", "x-mac-ukrainian"]),
   (.asciiBased "x-user-defined", ["x-user-defined"])]

/-- The encoding with this label, read without regard to case and surrounding ASCII blanks. -/
def ofLabel? (label : String) : Option Charset :=
  let blank (c : Char) : Bool := c == ' ' || c == '\t' || c == '\n' || c == '\x0c' || c == '\r'
  let core := ((label.toList.dropWhile blank).reverse.dropWhile blank).reverse
  let key := String.ofList (core.map Char.toLower)
  (labels.find? (·.2.contains key)).map (·.1)

/-- The encoding that a label given as bytes names. -/
def ofLabelBytes? (label : List UInt8) : Option Charset :=
  ofLabel? (String.ofList (label.map fun b => Char.ofNat b.toNat))

/-- The text of a byte string in which every byte is ASCII. -/
def decodeAscii? (bytes : List UInt8) : Option String :=
  if bytes.all (· < 128) then some (String.ofList (bytes.map fun b => Char.ofNat b.toNat))
  else none

end Charset

/-- Decoders for nothing but ASCII. Any others come before them. -/
instance (priority := low) Decoders.asciiOnly : Decoders := ⟨fun _ => Charset.decodeAscii?⟩

namespace Charset

def decode? [Decoders] (charset : Charset) (bytes : List UInt8) : Option String :=
  match charset with
  | utf8 => Utf8.decode? bytes
  | utf16 order => Utf16.decode? order bytes
  | windows1252 => some (Windows1252.decode bytes)
  | iso2022Jp => Iso2022Jp.decode? bytes
  | replacement => if bytes.isEmpty then some "" else none
  | asciiBased name => Decoders.decode? name bytes

/-- The encoding that a byte order mark announces, and the bytes behind the mark. -/
def ofMark? : List UInt8 → Option (Charset × List UInt8)
  | 0xEF :: 0xBB :: 0xBF :: rest => some (utf8, rest)
  | 0xFF :: 0xFE :: rest => some (utf16 .littleEndian, rest)
  | 0xFE :: 0xFF :: rest => some (utf16 .bigEndian, rest)
  | _ => none

/-- Decode a whole input. A byte order mark overrides `charset`; the error names the encoding
that was used. -/
def decodeMarked [Decoders] (charset : Charset) (bytes : List UInt8) : Except Charset String :=
  let (used, body) := (ofMark? bytes).getD (charset, bytes)
  match used.decode? body with
  | some s => .ok s
  | none => .error used

end Charset

end ScopedXml.Text
