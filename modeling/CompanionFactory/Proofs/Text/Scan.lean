import CompanionFactory.Proofs.Text.Quoted
import CompanionFactory.Proofs.Text.Word

/-!
# Scanning source

A scanner goes through a text from left to right and tells apart what stands inside literals and
what does not.  Inside a literal a backslash escapes the next character, and a line break must not
stand.  Outside literals every closing bracket has to close the innermost one that is open.  The
scanner knows nothing else; comments are code to it.

* `Scans.append` and `Scans.enclosed`: scans of two texts in a row, and of a text inside brackets;
* `Inert.scans`: text that the scanner does not react to;
* `lexicallySound_quoted`: the literal for any text whatever;
* `LexicallySound`: texts that can stand anywhere outside literals, and how to build them.
-/

namespace CompanionFactory.Text

/-! ## The scanner -/

/-- Where a scanner stands with respect to literals. -/
inductive Reading
  | code
  | literal (quote : Char)
  /-- Behind a backslash in a literal. -/
  | escaped (quote : Char)
  deriving DecidableEq, Repr

/-- What a scanner knows of the text behind it. -/
structure Scanner where
  reading : Reading := .code
  /-- The closing brackets for all open ones, innermost first. -/
  due : List Char := []
  deriving DecidableEq, Repr

def isLineBreak (c : Char) : Bool :=
  c == '\n' || c == '\r'

namespace Scanner

/-- Take one character. -/
def next? (scanner : Scanner) (c : Char) : Option Scanner :=
  match scanner.reading with
  | .code =>
      if c = '"' ∨ c = '\'' then some { scanner with reading := .literal c }
      else if c = '(' then some { scanner with due := ')' :: scanner.due }
      else if c = '\x7b' then some { scanner with due := '\x7d' :: scanner.due }
      else if c = ')' ∨ c = '\x7d' then
        match scanner.due with
        | [] => none
        | d :: due => if d = c then some { scanner with due := due } else none
      else some scanner
  | .literal quote =>
      if isLineBreak c then none
      else if c = '\\' then some { scanner with reading := .escaped quote }
      else if c = quote then some { scanner with reading := .code }
      else some scanner
  | .escaped quote =>
      if isLineBreak c then none else some { scanner with reading := .literal quote }

/-- Take all characters of a text. -/
def scan? (scanner : Scanner) (text : List Char) : Option Scanner :=
  text.foldlM next? scanner

/-- The scanner with more brackets open around those it knows. -/
def enclosed (scanner : Scanner) (outer : List Char) : Scanner :=
  { scanner with due := scanner.due ++ outer }

theorem scan?_append (scanner : Scanner) (s t : List Char) :
    scanner.scan? (s ++ t) = (scanner.scan? s).bind fun behind => behind.scan? t :=
  List.foldlM_append

theorem next?_enclosed {scanner behind : Scanner} {c : Char} (outer : List Char)
    (h : scanner.next? c = some behind) :
    (scanner.enclosed outer).next? c = some (behind.enclosed outer) := by
  obtain ⟨reading, due⟩ := scanner
  cases reading with
  | code =>
      -- Only a closing bracket looks at the brackets that are open, and only at the innermost.
      cases due <;> simp only [next?, enclosed] at h ⊢ <;> grind
  | literal quote | escaped quote =>
      simp only [next?, enclosed] at h ⊢
      grind

theorem scan?_enclosed {scanner behind : Scanner} {text : List Char} (outer : List Char)
    (h : scanner.scan? text = some behind) :
    (scanner.enclosed outer).scan? text = some (behind.enclosed outer) := by
  induction text generalizing scanner with
  | nil =>
      obtain rfl : scanner = behind := Option.some.inj h
      rfl
  | cons c text ih =>
      obtain ⟨middle, hnext, hscan⟩ := Option.bind_eq_some_iff.mp h
      exact Option.bind_eq_some_iff.mpr
        ⟨middle.enclosed outer, next?_enclosed outer hnext, ih hscan⟩

end Scanner

/-- From `before`, the scanner gets through the text and then stands at `behind`. -/
def Scans (before : Scanner) (text : String) (behind : Scanner) : Prop :=
  before.scan? text.toList = some behind

instance (before : Scanner) (text : String) (behind : Scanner) :
    Decidable (Scans before text behind) :=
  inferInstanceAs (Decidable (_ = _))

theorem Scans.append {before middle behind : Scanner} {s t : String} (hs : Scans before s middle)
    (ht : Scans middle t behind) : Scans before (s ++ t) behind := by
  unfold Scans at *
  rw [String.toList_append, Scanner.scan?_append, hs, Option.bind_some, ht]

theorem Scans.enclosed {before behind : Scanner} {text : String} (h : Scans before text behind)
    (outer : List Char) : Scans (before.enclosed outer) text (behind.enclosed outer) :=
  Scanner.scan?_enclosed outer h

/-- The scanner gets through the whole text, which leaves no literal and no bracket open. -/
def LexicallySound (text : String) : Prop :=
  Scans {} text {}

instance (text : String) : Decidable (LexicallySound text) :=
  inferInstanceAs (Decidable (Scans _ _ _))

example : LexicallySound "f(\"\\\"\x7b\", '(', \x7b')'\x7d)" ∧ ¬ LexicallySound "f(\x7b)\x7d" ∧
    ¬ LexicallySound "\"a\nb\"" ∧ ¬ LexicallySound "'" := by decide

/-! ## Inert text -/

/-- The characters that a scanner reacts to. -/
def activeChars : List Char :=
  ['"', '\'', '\\', '\n', '\r', '(', ')', '\x7b', '\x7d']

/-- Text without quotes, backslashes, line breaks and brackets. -/
def Inert (text : String) : Prop :=
  ∀ c ∈ text.toList, c ∉ activeChars

instance (text : String) : Decidable (Inert text) :=
  List.decidableBAll (fun c => c ∉ activeChars) text.toList

@[simp] theorem inert_append {s t : String} : Inert (s ++ t) ↔ Inert s ∧ Inert t := by
  simp only [Inert, String.toList_append, List.forall_mem_append]

theorem inert_of_isWord {text : String} (h : IsWord text) : Inert text := by
  have hactive : (activeChars.any isWordChar) = false := by decide
  intro c hc hmem
  exact List.any_eq_false.mp hactive c hmem (h c hc)

/-- The scanner stays where it is, unless something is being escaped. -/
theorem Inert.scans {text : String} (h : Inert text) {scanner : Scanner}
    (hreading : scanner.reading = .code ∨ ∃ quote, IsQuote quote ∧
      scanner.reading = .literal quote) : Scans scanner text scanner := by
  have hnext {c : Char} (hc : c ∉ activeChars) : scanner.next? c = some scanner := by
    simp only [activeChars, List.mem_cons, List.not_mem_nil, or_false, not_or] at hc
    obtain hcode | ⟨quote, rfl | rfl, hliteral⟩ := hreading
    · simp [Scanner.next?, hcode, hc]
    · simp [Scanner.next?, hliteral, isLineBreak, hc]
    · simp [Scanner.next?, hliteral, isLineBreak, hc]
  have hscan (chars : List Char) (hchars : ∀ c ∈ chars, c ∉ activeChars) :
      scanner.scan? chars = some scanner := by
    induction chars with
    | nil => rfl
    | cons c chars ih =>
        obtain ⟨hc, hrest⟩ := List.forall_mem_cons.mp hchars
        exact Option.bind_eq_some_iff.mpr ⟨scanner, hnext hc, ih hrest⟩
  exact hscan text.toList h

/-! ## Literals -/

/-- Whatever a character is, its written form leaves the literal open. -/
theorem scan?_escapeChar {quote : Char} (hquote : IsQuote quote) (c : Char) (due : List Char) :
    Scanner.scan? ⟨.literal quote, due⟩ (escapeChar quote c) = some ⟨.literal quote, due⟩ := by
  have hescaped (written : Char) (hwritten : isLineBreak written = false) :
      Scanner.scan? ⟨.literal quote, due⟩ ['\\', written] = some ⟨.literal quote, due⟩ := by
    have hbackslash : isLineBreak '\\' = false := rfl
    simp [Scanner.scan?, Scanner.next?, hbackslash, hwritten]
  by_cases hbackslash : c = '\\'
  · simpa [escapeChar, hbackslash] using hescaped '\\' rfl
  by_cases hline : c = '\n'
  · simpa [escapeChar, hline] using hescaped 'n' rfl
  by_cases hreturn : c = '\r'
  · simpa [escapeChar, hreturn] using hescaped 'r' rfl
  by_cases htab : c = '\t'
  · simpa [escapeChar, htab] using hescaped 't' rfl
  by_cases hclose : c = quote
  · have hbreak : isLineBreak quote = false := by rcases hquote with rfl | rfl <;> rfl
    simpa [escapeChar, ← hclose, hbackslash, hline, hreturn, htab] using hescaped quote hbreak
  · simp [escapeChar, Scanner.scan?, Scanner.next?, isLineBreak, hbackslash, hline, hreturn, htab,
      hclose]

theorem scan?_escape {quote : Char} (hquote : IsQuote quote) (text due : List Char) :
    Scanner.scan? ⟨.literal quote, due⟩ (escape quote text) = some ⟨.literal quote, due⟩ := by
  induction text with
  | nil => rfl
  | cons c text ih =>
      rw [escape_cons, Scanner.scan?_append, scan?_escapeChar hquote, Option.bind_some, ih]

/-- The literal for any text ends where it is meant to end. -/
theorem lexicallySound_quoted {quote : Char} (hquote : IsQuote quote) (text : List Char) :
    LexicallySound (quoted quote text) := by
  have hopen : Scanner.scan? {} [quote] = some ⟨.literal quote, []⟩ := by
    rcases hquote with rfl | rfl <;> rfl
  have hclose : Scanner.scan? ⟨.literal quote, []⟩ [quote] = some {} := by
    rcases hquote with rfl | rfl <;> rfl
  show Scanner.scan? {} (quoted quote text).toList = some {}
  rw [toList_quoted, ← List.singleton_append, Scanner.scan?_append, hopen, Option.bind_some,
    Scanner.scan?_append, scan?_escape hquote, Option.bind_some, hclose]

/-! ## Sound texts -/

theorem Inert.lexicallySound {text : String} (h : Inert text) : LexicallySound text :=
  h.scans (.inl rfl)

namespace LexicallySound

variable {s t text : String}

/-- A sound text leaves open what was open before it. -/
theorem scans (h : LexicallySound text) (due : List Char) :
    Scans { due := due } text { due := due } :=
  Scans.enclosed h due

theorem append (hs : LexicallySound s) (ht : LexicallySound t) : LexicallySound (s ++ t) :=
  Scans.append hs ht

theorem parens (h : LexicallySound text) : LexicallySound ("(" ++ text ++ ")") := by
  have hopen : Scans {} "(" { due := [')'] } := rfl
  have hclose : Scans { due := [')'] } ")" {} := rfl
  exact (hopen.append (h.scans _)).append hclose

theorem braces (h : LexicallySound text) : LexicallySound ("\x7b" ++ text ++ "\x7d") := by
  have hopen : Scans {} "\x7b" { due := ['\x7d'] } := rfl
  have hclose : Scans { due := ['\x7d'] } "\x7d" {} := rfl
  exact (hopen.append (h.scans _)).append hclose

theorem intercalate {separator : String} (hseparator : LexicallySound separator)
    {texts : List String} (htexts : ∀ text ∈ texts, LexicallySound text) :
    LexicallySound (separator.intercalate texts) := by
  have hjoin (texts : List String) (htexts : ∀ text ∈ texts, LexicallySound text) :
      LexicallySound (String.join (texts.map fun text => separator ++ text)) := by
    induction texts with
    | nil => exact rfl
    | cons text texts ih =>
        obtain ⟨htext, hrest⟩ := List.forall_mem_cons.mp htexts
        rw [List.map_cons, String.join_cons]
        exact (hseparator.append htext).append (ih hrest)
  cases texts with
  | nil => exact rfl
  | cons text texts =>
      obtain ⟨htext, hrest⟩ := List.forall_mem_cons.mp htexts
      rw [intercalate_cons_eq_join]
      exact htext.append (hjoin texts hrest)

end LexicallySound

end CompanionFactory.Text
