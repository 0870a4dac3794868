import LintHooks.Hook.Basic
set_option autoImplicit false

/-!
# Hooks: target files

The files that a hook works on, each once, in the order in which they were named.
What the hook does not handle is passed over when it stands on the command line;
files that CMake knows of are taken as they are.
-/

namespace LintHooks.Hook

/-- Adds a file unless it is there. -/
def addFile (files : List String) (file : String) : List String :=
  if files.contains file then files else files ++ [file]

/-- Adds several files one after the other. -/
def addFiles (files more : List String) : List String := more.foldl addFile files

@[simp] theorem addFiles_nil (files : List String) : addFiles files [] = files := rfl

theorem addFiles_cons (files : List String) (file : String) (more : List String) :
    addFiles files (file :: more) = addFiles (addFile files file) more := rfl

theorem mem_addFile {files : List String} {file x : String} :
    x ∈ addFile files file ↔ x ∈ files ∨ x = file := by
  unfold addFile
  by_cases h : files.contains file
  · rw [if_pos h]
    exact ⟨.inl, fun hx => hx.elim id fun e => e ▸ List.contains_iff_mem.mp h⟩
  · rw [if_neg h]; simp

theorem nodup_addFile {files : List String} (file : String) (h : files.Nodup) :
    (addFile files file).Nodup := by
  unfold addFile
  by_cases hc : files.contains file
  · rwa [if_pos hc]
  · rw [if_neg hc]
    have hn : file ∉ files := fun hm => hc (List.contains_iff_mem.mpr hm)
    exact List.nodup_append.mpr ⟨h, by simp,
      fun a ha b hb => by rw [List.mem_singleton.mp hb]; exact fun e => hn (e ▸ ha)⟩

/-- What a command line says about files. -/
structure FileArgs where
  /-- What may be files to work on. -/
  candidates : List String
  /-- What stands behind the separator for the tool. -/
  ddash : List String
  deriving DecidableEq, Repr, Inhabited

/-- Sorts what stands behind the separator; `isFile` tells which names are those of files. -/
def fileArgs (h : Hook) (isFile : String → Bool) (files ddash : List String) : FileArgs :=
  if h.splitsDdash then ⟨files ++ ddash.filter isFile, ddash.filter fun arg => !isFile arg⟩
  else ⟨files ++ ddash, []⟩

/-- The files to work on. -/
def targets (h : Hook) (candidates : List String) : List String :=
  addFiles [] (candidates.filter h.handles)

end LintHooks.Hook
