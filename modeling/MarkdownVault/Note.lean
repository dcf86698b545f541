import MarkdownVault.Note.FrontMatter
import MarkdownVault.Note.Link
import MarkdownVault.Note.Tag
import MarkdownVault.Note.Field
import MarkdownVault.Filter.Record

/-!
# Notes

A note is a text with its front matter, tags, links, embeds and inline fields read off.
-/

namespace MarkdownVault

structure Note where
  path : String
  content : String
  frontMatter : Properties
  body : String
  tags : List String
  /-- Targets as written; they need not name a file. -/
  links : List String
  embeds : List String
  fields : List Note.Field

namespace Note

def ofText (path content : String) : Except Yaml.Fault Note := do
  let (frontMatter, body) ← frontMatterOf content
  return {
    path
    content
    frontMatter
    body
    tags := tagsOf content frontMatter
    links := linksOf body
    embeds := embedsOf body
    fields := fieldsOf body }

def fieldValue (f : Note.Field) : Value :=
  .ofProperties [("key", .text f.key), ("value", .text f.value), ("line", .int f.line)]

def toValue (n : Note) : Value :=
  .ofProperties [("path", .text n.path), ("content", .text n.content),
    ("frontmatter", .ofProperties n.frontMatter), ("body", .text n.body),
    ("tags", Record.textList n.tags), ("links", Record.textList n.links),
    ("embeds", Record.textList n.embeds), ("inlineFields", .list (n.fields.map fieldValue))]

end Note

end MarkdownVault
