/-! # Files

What reading a file can come to. -/

namespace RichDoc

/-- What there is at a path. -/
inductive File where
  | missing
  /-- Something that is not to be read, such as a directory. -/
  | unreadable
  | bytes (content : ByteArray)

/-- The text of a file, if it is one. -/
def File.text? : File → Option String
  | bytes b => String.fromUTF8? b
  | _ => none

end RichDoc
