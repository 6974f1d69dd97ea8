/-!
# The text of a YAML stream

The characters that the grammar tells apart, and the form in which a stream is read. A stream ends
at its first U+0000, and the three line breaks of YAML are one: `streamText` says so once, and the
rest of the reader meets `'\n'` only.
-/

namespace Provision.Yaml

/-- The characters of a stream, up to its end, with every line break written as one line feed. -/
def streamText : List Char → List Char
  | [] => []
  | c :: cs =>
    if c = '\x00' then []
    else if c = '\r' then if cs.head? = some '\n' then streamText cs else '\n' :: streamText cs
    else c :: streamText cs

theorem streamText_cons {x : Char} (zero : x ≠ '\x00') (return_ : x ≠ '\r') (cs : List Char) :
    streamText (x :: cs) = x :: streamText cs := by
  rw [streamText, if_neg zero, if_neg return_]

/-- A text without carriage returns is in the stream as it stands. -/
theorem streamText_append {text : List Char} (clean : ∀ x ∈ text, x ≠ '\x00' ∧ x ≠ '\r')
    (cs : List Char) : streamText (text ++ cs) = text ++ streamText cs := by
  induction text with
  | nil => rfl
  | cons x text ih =>
    obtain ⟨hx, htext⟩ := List.forall_mem_cons.1 clean
    rw [List.cons_append, streamText_cons hx.1 hx.2, ih htext, List.cons_append]

/-- A text without the byte order mark that it may start with. -/
def dropByteOrderMark : List Char → List Char
  | '\uFEFF' :: cs => cs
  | cs => cs

/-- A space or a tab. -/
def isBlank (c : Char) : Bool := c == ' ' || c == '\t'

/-- A space, a tab or a line break. -/
def isGap (c : Char) : Bool := isBlank c || c == '\n'

/-- A character that structures flow collections. -/
def isFlowMark (c : Char) : Bool :=
  c == ',' || c == '[' || c == ']' || c == '{' || c == '}'

/-- A character of directive names and tag handles. -/
def isNameChar (c : Char) : Bool := c.isAlphanum || c == '_' || c == '-'

/-- A character of anchor names. -/
def isAnchorChar (c : Char) : Bool := !isGap c && !isFlowMark c && c != '\uFEFF'

/-- A character of URIs. -/
def isUriChar (c : Char) : Bool := c.isAlphanum || "-#;/?:@&=+$,_.!~*'()[]%".toList.contains c

/-- A character of tags. -/
def isTagChar (c : Char) : Bool := isUriChar c && !isFlowMark c && c != '!'

/-- Whether nothing follows, or a blank or a line break: where an indicator such as `-` ends. -/
def atGap : List Char → Bool
  | [] => true
  | c :: _ => isGap c

/-- Whether a flow mark follows. -/
def atFlowMark : List Char → Bool
  | [] => false
  | c :: _ => isFlowMark c

/-- Whether the line is over. -/
def atLineEnd : List Char → Bool
  | [] => true
  | c :: _ => c == '\n'

/-- Whether the marker `---` follows. -/
def atDocumentStart : List Char → Bool
  | '-' :: '-' :: '-' :: cs => atGap cs
  | _ => false

/-- Whether the marker `...` follows. -/
def atDocumentEnd : List Char → Bool
  | '.' :: '.' :: '.' :: cs => atGap cs
  | _ => false

/-- Whether one of the two document markers follows. -/
def atDocumentMarker (cs : List Char) : Bool := atDocumentStart cs || atDocumentEnd cs

end Provision.Yaml
