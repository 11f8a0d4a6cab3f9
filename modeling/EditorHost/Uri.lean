import EditorHost.Path
import EditorHost.Text.Percent

/-!
# URIs of documents

Documents are known by URIs.  The URI of a path has the scheme `file`, and each part of the path
percent-encoded; backslashes count as slashes, and a relative path is taken to start at the root.
-/

namespace EditorHost.Uri

/-- The beginning of the URI of a path. -/
def fileScheme : String := "file://"

/-- The URI of a path. -/
def ofPath (p : Path) : String :=
  let slashed := p.text.toList.map fun c => if c = '\\' then '/' else c
  let parts := (Text.split '/' slashed).map fun part =>
    Percent.encode (Utf8.encode (String.ofList part))
  let joined := List.intercalate ['/'] parts
  let rooted := if joined.head? = some '/' then joined else '/' :: joined
  String.ofList (fileScheme.toList ++ rooted)

/-- The path of a URI; `none` for another scheme and for octets that are not UTF-8. -/
def toPath? (uri : String) : Option Path := do
  let rest ← Text.dropPrefix? fileScheme.toList uri.toList
  return ⟨← Percent.decode? (String.ofList rest)⟩

/-- The scheme of a URI: the text before its first colon. -/
def scheme? (uri : String) : Option String := (Text.splitTextOnce ':' uri).map Prod.fst

end EditorHost.Uri
