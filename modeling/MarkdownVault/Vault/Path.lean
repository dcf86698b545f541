import MarkdownVault.Text.Basic

/-!
# Paths in a vault

A path names a file from the root of its vault, with slashes between folders and none in front.
-/

namespace MarkdownVault.Path

/-- The extension of notes. -/
def noteExtension : String := ".md"

/-- The extension of base definitions. -/
def baseExtension : String := ".base"

/-- Backslashes become slashes; leading slashes go. -/
def normalize (path : String) : String :=
  mapChars (fun cs => (Text.replaceChar '\\' '/' cs).dropWhile (· == '/')) path

def withExtension (extension path : String) : String :=
  if endsWith path extension then path else path ++ extension

def ensureNote (path : String) : String := withExtension noteExtension path
def ensureBase (path : String) : String := withExtension baseExtension path

/-- The text up to the last slash, included, and the text behind it. -/
def splitLast (cs : List Char) : List Char × List Char :=
  let name := (cs.reverse.takeWhile (· != '/')).reverse
  (cs.take (cs.length - name.length), name)

/-- Everything before the last slash, without slashes at its end unless it is nothing else. -/
def dirname (path : String) : String :=
  mapChars (fun cs =>
    let head := (splitLast cs).1
    if head.all (· == '/') then head else Text.dropEndWhile (· == '/') head) path

def basename (path : String) : String := mapChars (fun cs => (splitLast cs).2) path

/-- A file name cut before its last dot; the dots that a name starts with do not count. -/
def splitName (cs : List Char) : List Char × List Char :=
  let dots := cs.takeWhile (· == '.')
  let rest := cs.dropWhile (· == '.')
  let tail := (rest.reverse.takeWhile (· != '.')).reverse
  if tail.length < rest.length then
    let n := rest.length - tail.length - 1
    (dots ++ rest.take n, rest.drop n)
  else (cs, [])

/-- The name of a file without its extension. -/
def stemOf (name : String) : String := mapChars (fun cs => (splitName cs).1) name

/-- The extension of a file name with its dot, empty if there is none. -/
def extensionOf (name : String) : String := mapChars (fun cs => (splitName cs).2) name

/-- The folder of a path, empty at the root of the vault. -/
def folder (path : String) : String :=
  let parent := dirname (normalize path)
  if parent = "." then "" else parent

/-- The name of the file without its extension. -/
def stem (path : String) : String := stemOf (basename (normalize path))

end MarkdownVault.Path
