/-!
# Shell commands

What a script says, before anything in it is worked out. A word is made of parts: text, and places
where the value of a parameter, the output of a script or the value of a sum is put in. Commands run
programs, with their input and output led elsewhere, and are put together from other commands.
-/

namespace CallDispatch.Shell

/-- What is put in for a parameter that has no value: nothing; another word; the same, which also
becomes its value; or a complaint. Or, the other way round, another word if it has a value, or the
value without what a pattern matches at its beginning or its end. -/
inductive Fallback where
  | nothing
  | useInstead (text : List Char)
  | assign (text : List Char)
  | complain (text : List Char)
  | ifPresent (text : List Char)
  | without (atEnd longest : Bool) (pattern : List Char)
  deriving DecidableEq, Repr

/-- A parameter: its name, what to do if it has no value, whether an empty value counts as none, and
whether its length is asked for. -/
structure Parameter where
  name : List Char
  fallback : Fallback := .nothing
  emptyCounts : Bool := false
  asLength : Bool := false
  deriving DecidableEq, Repr

/-- A part of a word. Only what is put in outside quotes is cut into fields at blanks. -/
inductive Part where
  | text (s : List Char) (quoted : Bool)
  | parameter (p : Parameter) (quoted : Bool)
  | output (script : List Char) (quoted : Bool)
  | sum (expression : List Char) (quoted : Bool)
  deriving DecidableEq, Repr

/-- A word. -/
abbrev Word := List Part

/-- Where a stream is led: a file to read, to write or to add to, or another stream. -/
inductive Direction where
  | read
  | write
  | append
  | duplicate
  deriving DecidableEq, Repr

/-- A stream led elsewhere. -/
structure Redirection where
  stream : Nat
  direction : Direction
  target : Word
  deriving DecidableEq, Repr

/-- A piece of a script: a word, a symbol, the end of a line, the number of a stream before a
redirection, or a place from which on nothing can be read. -/
inductive Token where
  | word (w : Word)
  | symbol (s : String)
  | lineEnd
  | stream (n : Nat)
  | broken
  deriving DecidableEq, Repr

/-- A command. -/
inductive Command where
  | nothing
  | simple (assignments : List (List Char × Word)) (words : List Word)
      (redirections : List Redirection)
  | redirected (c : Command) (redirections : List Redirection)
  | pipe (first second : Command)
  | negated (c : Command)
  | sequence (first second : Command)
  | both (first second : Command)
  | either (first second : Command)
  | conditional (test whenTrue whenFalse : Command)
  | loop (endsWhen : Bool) (test body : Command)
  | each (name : List Char) (words : List Word) (body : Command)
  | choice (subject : Word) (branches : List (List Word × Command))
  | inSubshell (c : Command)
  deriving Repr

/-- The text of a word that is one unquoted text. -/
def plainText? : Word → Option String
  | [.text s false] => some (String.ofList s)
  | _ => none

/-- Whether a character may start a name. -/
def startsName (c : Char) : Bool := c.isAlpha || c == '_'

/-- Whether a character may stand in a name. -/
def inName (c : Char) : Bool := c.isAlphanum || c == '_'

/-- Whether a text is a name. -/
def isName : List Char → Bool
  | c :: rest => startsName c && rest.all inName
  | [] => false

/-- Whether a parameter with this name of one character has a meaning of its own. -/
def isSpecial (c : Char) : Bool := c.isDigit || ['?', '$', '#', '@', '*', '!', '-'].contains c

end CallDispatch.Shell
