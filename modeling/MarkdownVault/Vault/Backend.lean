import MarkdownVault.Failure
import MarkdownVault.Vault.File

/-!
# Backends

A backend keeps the files of a vault. It lists them and reads them one at a time. Either may fail,
and every answer may leave the backend changed.
-/

namespace MarkdownVault

class Backend (σ : Type) where
  /-- The files below a folder at a time, those of the whole vault if no folder is given. -/
  list : Binary64 → Option String → σ → Except Failure (List FileEntry) × σ
  read : String → σ → Except Failure String × σ
  /-- The path under which a note that is read is known. -/
  notePath : String → σ → String

end MarkdownVault
