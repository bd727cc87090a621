import ImportIndex.Json.Reader
import ImportIndex.Settings

/-!
# The settings file

Settings are read from structured text. Every field may be left out and then has its usual value,
and no others are allowed.
-/

namespace ImportIndex.Settings

/-- Reads a path. -/
def path : Json.Reader Path := return .ofText (← Json.Reader.text "path string")

/-- Reads a text. -/
def text : Json.Reader String := Json.Reader.text "a string"

/-- Reads settings. -/
def reader : Json.Reader Settings :=
  Json.Reader.record "struct Config"
    [⟨"output_dir", fun s => return { s with outputDir := ← path }, false⟩,
     ⟨"module_roots", fun s => return { s with moduleRoots := ← Json.Reader.list path }, false⟩,
     ⟨"include_roots", fun s => return { s with includeRoots := ← Json.Reader.list path }, false⟩,
     ⟨"module_extension", fun s => return { s with moduleExtension := ← text }, false⟩,
     ⟨"module_keyword", fun s => return { s with moduleKeyword := ← text }, false⟩,
     ⟨"native_extensions",
      fun s => return { s with nativeExtensions := ← Json.Reader.list text }, false⟩,
     ⟨"include_keyword", fun s => return { s with includeKeyword := ← text }, false⟩]
    false {}

/-- The settings that a text holds. -/
def ofText (text : String) : Except Json.Fault Settings := reader.run text

end ImportIndex.Settings
