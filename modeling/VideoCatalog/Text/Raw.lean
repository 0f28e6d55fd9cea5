import VideoCatalog.Text.Utf8

/-!
Text as the operating system keeps it: bytes that need not be UTF-8. The names of files are such
text, and so are the paths made of them. They are compared byte by byte. Where they are shown, bytes
that are no text are replaced; where text is asked for, there may be none.
-/

namespace VideoCatalog

/-- The bytes of a name or a path. -/
@[ext] structure RawText where
  bytes : List UInt8
  deriving DecidableEq

namespace RawText

/-- The byte of a slash. -/
def slash : UInt8 := 47

/-- The byte of a dot. -/
def dot : UInt8 := 46

/-- A text in its bytes. -/
def ofString (s : String) : RawText where
  bytes := s.toUTF8.data.toList

instance : Coe String RawText where
  coe := ofString

/-- The bytes in one array. -/
def toByteArray (t : RawText) : ByteArray :=
  ⟨t.bytes.toArray⟩

/-- The text that the bytes are, if they are UTF-8. -/
def text? (t : RawText) : Option String :=
  String.fromUTF8? t.toByteArray

/-- The bytes as they are shown. -/
def shown (t : RawText) : String :=
  Text.lossy t.toByteArray

end RawText

end VideoCatalog
