import ProofHost.Config.File
import ProofHost.Proofs.Bytes
import ProofHost.Proofs.Host.Files
import ProofHost.Proofs.Json.Indented

/-!
Configurations read back from the files to which they were written. All ten fields stand in the
text, so nothing of the configuration at hand is left in the one that is read.
-/

set_option autoImplicit false

namespace ProofHost

namespace Config

open Json (ReadBack indentChars ofTexts)

variable {base c : Config} {h h' : Host} {path : String}

section

variable {α : Type} {decode : Json.Decoder α} {a : α}

private theorem readBack_scalar_string {s : String} (taken : decode (.string s) = .ok a)
    (name : String)
    (fallback : Option Json) (depth level : Nat) :
    ReadBack ((RecordField.scalar name decode fallback).read depth) (indentChars level (.string s))
      (.string s) := by
  have passes : (decode (.string s)).map (fun _ => ()) = .ok () := by rw [taken]; rfl
  exact Json.readBack_checked_string (fun v => (decode v).map fun _ => ()) passes level

private theorem readBack_scalar_null (taken : decode .null = .ok a) (name : String)
    (fallback : Option Json) (depth level : Nat) :
    ReadBack ((RecordField.scalar name decode fallback).read depth) (indentChars level .null)
      .null := by
  have passes : (decode .null).map (fun _ => ()) = .ok () := by rw [taken]; rfl
  exact Json.readBack_checked_null (fun v => (decode v).map fun _ => ()) passes level

end

private theorem readBack_texts (name : String) (fallback : Option Json) (depth level : Nat)
    (texts : List String) :
    ReadBack ((RecordField.texts name fallback).read depth) (indentChars level (ofTexts texts))
      (ofTexts texts) := by
  refine Json.readBack_list fun v mem => ?_
  obtain ⟨s, -, rfl⟩ := List.mem_map.mp mem
  exact Json.readBack_checked_string _ rfl (level + 1)

private theorem readBack_option (name : String) (fallback : Option Json) (depth level : Nat)
    (text : Option String) :
    ReadBack ((RecordField.scalar name (Json.asOption Json.asText) fallback).read depth)
      (indentChars level (Json.ofOption .string text)) (Json.ofOption .string text) := by
  cases text with
  | none => exact readBack_scalar_null (a := none) rfl name fallback depth level
  | some s => exact readBack_scalar_string (a := some s) rfl name fallback depth level

private theorem nodup_fields (base : Config) : (base.shape.fields.map RecordField.name).Nodup := by
  have names : base.shape.fields.map RecordField.name =
      ["binary_root", "kernel_image", "image_path", "stubs", "kernel_args", "vfs_root", "lib_root",
        "pkg_dir", "init_pkgs", "interrupt_marker"] := rfl
  rw [names]
  decide

private theorem readBack_toFields (base c : Config) (depth : Nat) :
    List.Forall₂ (fun field entry => field.name = entry.1 ∧
      ReadBack (field.read depth) (indentChars 1 entry.2) entry.2) base.shape.fields c.toFields := by
  have text (s name : String) (fallback : Option Json) :=
    readBack_scalar_string (Json.asText_string s) name fallback depth 1
  have texts (list : List String) (name : String) (fallback : Option Json) :=
    readBack_texts name fallback depth 1 list
  have root : Json.textCalled "path string" (.string c.sandboxRoot) = .ok c.sandboxRoot := rfl
  exact .cons ⟨rfl, text c.binaryRoot _ _⟩ <| .cons ⟨rfl, text c.kernelImage _ _⟩ <|
    .cons ⟨rfl, text c.imagePath _ _⟩ <| .cons ⟨rfl, texts c.stubs _ _⟩ <|
    .cons ⟨rfl, texts c.kernelArgs _ _⟩ <|
    .cons ⟨rfl, readBack_scalar_string root _ _ depth 1⟩ <|
    .cons ⟨rfl, text c.libRoot _ _⟩ <| .cons ⟨rfl, text c.packageDir _ _⟩ <|
    .cons ⟨rfl, texts c.initialPackages _ _⟩ <|
    .cons ⟨rfl, readBack_option _ _ depth 1 c.interruptMarker⟩ .nil

private theorem ofValues_toFields (c : Config) : ofValues (c.toFields.map Prod.snd) = .ok c := by
  have marker := Json.undoes_text.option c.interruptMarker
  have root : Json.textCalled "path string" (.string c.sandboxRoot) = .ok c.sandboxRoot := rfl
  simp only [toFields, List.map_cons, List.map_nil, ofValues, Json.asText_string, root,
    Json.asList_ofTexts, marker]
  rfl

/-- The text of a configuration file is read as the configuration, whatever is at hand for missing
fields. -/
private theorem parse_render (base c : Config) : base.parse c.render = .ok c := by
  have values := RecordShape.read_indented (nodup_fields base)
    (readBack_toFields base c (Json.maxDepth - 1)) []
  rw [List.append_nil] at values
  rw [parse, render, Json.renderIndented, String.toList_ofList, Json.readAll, toJson]
  simp only [values, ofValues_toFields]
  rfl

private theorem write_of_toFile (saved : (c.toFile h path).1 = .ok ()) :
    ∃ made : Host, made.write path (Bytes.ofText c.render) = .ok (c.toFile h path).2 := by
  unfold toFile at saved ⊢
  extract_lets at saved ⊢
  rename_i made
  obtain ⟨e | u, h'⟩ := made
  · cases saved
  · cases written : h'.write path (Bytes.ofText c.render) with
    | error e => simp [written] at saved
    | ok h'' => exact ⟨h', by simp [written]⟩

/-- A configuration that was saved is loaded from its file with every field as it was. -/
theorem ofFile_toFile (saved : (c.toFile h path).1 = .ok ()) (base : Config) :
    ofFile base (c.toFile h path).2 path = .ok c := by
  obtain ⟨made, written⟩ := write_of_toFile saved
  have file := Host.stat_write written
  have found : (c.toFile h path).2.pathExists path = true := by
    rw [Host.pathExists, file]
    rfl
  have read := Host.read_eq_ok_iff.mpr file
  rw [ofFile, if_pos found, read]
  simp only [Bytes.toText?_ofText, parse_render]
  rfl

/-- A configuration whose texts have to be escaped, with every field set. -/
def awkward : Config where
  binaryRoot := "a \"quoted\" root\\"
  kernelImage := "line\nfeed"
  imagePath := "\t\r"
  stubs := ["", "\x00\x1f\x7f", "∀ é 😀"]
  kernelArgs := [","]
  sandboxRoot := "/home/né"
  libRoot := "\x08\x0c"
  packageDir := "null"
  initialPackages := ["[\"\"]"]
  interruptMarker := some ""

theorem ofFile_toFile_awkward :
    (awkward.toFile (.empty ["work"]) "xdg/coqpod/config.json").1 = .ok () ∧
      ofFile (default []) (awkward.toFile (.empty ["work"]) "xdg/coqpod/config.json").2
        "xdg/coqpod/config.json" = .ok awkward := by
  have saved : (awkward.toFile (.empty ["work"]) "xdg/coqpod/config.json").1 = .ok () := rfl
  exact ⟨saved, ofFile_toFile saved (default [])⟩

end Config

end ProofHost
