/-
Where an upload ends up, and whether it is found again.

A path of a request is a list of names once it is taken apart: those that no double dot takes
back.  They are put together again for the answer of an upload, and a request with the answer
leads to the same names unless trimming takes something off the first or the last of them.
-/
import Memos.Fileserver.StorageFiles
import Memos.Lib.Fallible

namespace Memos.Fileserver

open Store FileTree SlashPath

/-! ### Names -/

/-- What a path of a request says: trimmed, with slashes only. -/
def trimmed (raw : Path) : Path := backslashToSlash (Trim.trim Api.isSpace raw)

/-- The names on the way, found from the end of the path. -/
def names (raw : Path) : List Path := (standing '.' 0 ((trimmed raw).splitOn '/').reverse).reverse

/-- No white space in front of the first name or after the last one. -/
structure PlainEdges (raw : Path) : Prop where
  front : ∀ name ∈ (names raw).head?, ∀ c ∈ name.head?, Api.isSpace c = false
  back : ∀ name ∈ (names raw).getLast?, ∀ c ∈ name.getLast?, Api.isSpace c = false

def joined (names : List Path) : Path := ['/'].intercalate names

section Names

variable {raw p : Path} {parts out : List Path} {c : Char}

theorem names_eq (raw : Path) :
    names raw = (((trimmed raw).splitOn '/').foldl (push '.' true) []).reverse := by
  unfold names
  rw [← drop_foldl_push (fun _ => free_of_mem_splitOn) 0, List.drop_zero]

theorem isName_of_mem_names : ∀ name ∈ names raw, IsName '/' '.' name := by
  intro name mem
  rw [names_eq, List.mem_reverse] at mem
  exact isName_of_foldl (fun _ => free_of_mem_splitOn) (List.forall_mem_nil _) name mem

/-- The loop stops where the path climbs out, and otherwise keeps what is kept. -/
theorem pathCleanSlashLoop_eq (apart : ∀ name ∈ out, name ≠ "..".toList) :
    pathCleanSlashLoop out parts = "..".toList ∨
      pathCleanSlashLoop out parts = joined ((parts.foldl (push '.' true) out.reverse).reverse) := by
  induction parts generalizing out with
  | nil =>
      right
      rw [List.foldl_nil, List.reverse_reverse]
      rfl
  | cons part parts ih =>
      rw [pathCleanSlashLoop, List.foldl_cons]
      by_cases counts : part = [] ∨ part = ".".toList
      · rw [if_pos counts]
        have same : push '.' true out.reverse part = out.reverse := if_pos counts
        rw [same]
        exact ih apart
      · rw [if_neg counts]
        by_cases up : part = "..".toList
        · rw [if_pos up]
          by_cases none : out = []
          · exact .inl (if_pos none)
          · rw [if_neg none]
            have same : push '.' true out.reverse part = out.dropLast.reverse := by
              rw [up, show "..".toList = ['.', '.'] from rfl, push_up, if_neg, List.tail_reverse]
              intro twice
              rw [List.head?_reverse] at twice
              exact apart _ (List.mem_of_getLast? twice) rfl
            rw [same]
            exact ih fun name mem => apart name (List.mem_of_mem_dropLast mem)
        · rw [if_neg up]
          have same : push '.' true out.reverse part = (out ++ [part]).reverse := by
            rw [List.reverse_append]
            exact (if_neg counts).trans (if_neg up)
          rw [same]
          refine ih (List.forall_mem_append.mpr ⟨apart, List.forall_mem_singleton.mpr up⟩)

theorem pathCleanSlashLoop_names (are : ∀ name ∈ parts, IsName '/' '.' name) :
    pathCleanSlashLoop out parts = joined (out ++ parts) := by
  induction parts generalizing out with
  | nil =>
      rw [List.append_nil]
      rfl
  | cons part parts ih =>
      rw [List.forall_mem_cons] at are
      have counts : ¬(part = [] ∨ part = ".".toList) := not_or.mpr are.1.counts
      have up : part ≠ "..".toList := are.1.up
      rw [pathCleanSlashLoop, if_neg counts, if_neg up, ih are.2, List.append_assoc,
        List.singleton_append]

theorem pathCleanSlash_cons_slash (path : Path) : pathCleanSlash ('/' :: path) = pathCleanSlash path := by
  unfold pathCleanSlash
  rw [List.splitOn_cons_eq_if_modifyHead, if_pos (beq_self_eq_true '/'), pathCleanSlashLoop,
    if_pos (.inl rfl)]

/-- The path without a slash in front. -/
def unrooted (path : Path) : Path := if path.head? = some '/' then path.tail else path

/-- The slash in front of a path makes no difference. -/
theorem pathCleanSlash_unrooted (path : Path) : pathCleanSlash (unrooted path) = pathCleanSlash path := by
  unfold unrooted
  split
  next slash =>
    cases path with
    | nil => cases slash
    | cons c path =>
        rw [List.head?_cons, Option.some_inj] at slash
        rw [slash, pathCleanSlash_cons_slash]
        rfl
  · rfl

theorem normalize_eq (raw : Path) : normalizeStorageRelativePath raw =
    if unrooted (trimmed raw) = [] then .error "path is required"
    else if pathCleanSlash (trimmed raw) = ".".toList ∨ pathCleanSlash (trimmed raw) = [] ∨
        "../".toList <+: pathCleanSlash (trimmed raw) ∨
        "/../".toList <:+: pathCleanSlash (trimmed raw) then .error "invalid path"
    else if ((pathCleanSlash (trimmed raw)).splitOn '/').any fun part =>
        decide (part = [] ∨ part = ".".toList ∨ part = "..".toList) then .error "invalid path"
    else .ok (pathCleanSlash (trimmed raw)) := by
  rw [← pathCleanSlash_unrooted]
  rfl

theorem up_mem_of_front (is : "../".toList <+: p) : "..".toList ∈ p.splitOn '/' := by
  obtain ⟨rest, rfl⟩ := is
  rw [show "../".toList ++ rest = "..".toList ++ '/' :: rest from rfl, List.splitOn_append_cons_self]
  exact List.mem_append_left _ (by decide)

theorem up_mem_of_inner (is : "/../".toList <:+: p) : "..".toList ∈ p.splitOn '/' := by
  obtain ⟨front, rest, rfl⟩ := is
  rw [show front ++ "/../".toList ++ rest = front ++ '/' :: ("..".toList ++ '/' :: rest) by simp,
    List.splitOn_append_cons_self, List.splitOn_append_cons_self]
  exact List.mem_append_right _ (List.mem_append_left _ (by decide))

theorem normalize_eq_ok : normalizeStorageRelativePath raw = .ok p ↔
    p = pathCleanSlash (trimmed raw) ∧ ∀ part ∈ p.splitOn '/', IsName '/' '.' part := by
  have empty : ¬∀ part ∈ ([] : Path).splitOn '/', IsName '/' '.' part := fun are =>
    (are [] (by decide)).counts.1 rfl
  rw [normalize_eq]
  constructor
  · intro ok
    split at ok
    · cases ok
    · split at ok
      · cases ok
      · split at ok
        · cases ok
        next plain =>
          injection ok with same
          refine ⟨same.symm, fun part mem => ?_⟩
          rw [← same] at mem
          have names : ¬(part = [] ∨ part = ".".toList ∨ part = "..".toList) := fun is =>
            plain (List.any_eq_true.mpr ⟨part, mem, decide_eq_true is⟩)
          rw [not_or, not_or] at names
          exact ⟨⟨names.1, names.2.1⟩, names.2.2, free_of_mem_splitOn mem⟩
  · rintro ⟨same, are⟩
    rw [← same]
    have some : unrooted (trimmed raw) ≠ [] := by
      intro none
      rw [← pathCleanSlash_unrooted, none] at same
      rw [same] at are
      exact empty are
    have cleaned : ¬(p = ".".toList ∨ p = [] ∨ "../".toList <+: p ∨ "/../".toList <:+: p) := by
      rintro (rfl | rfl | up | up)
      · exact (are ".".toList (by decide)).counts.2 rfl
      · exact empty are
      · exact (are _ (up_mem_of_front up)).up rfl
      · exact (are _ (up_mem_of_inner up)).up rfl
    have parts : ¬((p.splitOn '/').any fun part =>
        decide (part = [] ∨ part = ".".toList ∨ part = "..".toList)) = true := by
      rw [List.any_eq_true]
      rintro ⟨part, mem, is⟩
      rcases of_decide_eq_true is with none | dot | up
      · exact (are part mem).counts.1 none
      · exact (are part mem).counts.2 dot
      · exact (are part mem).up up
    rw [if_neg some, if_neg cleaned, if_neg parts]

theorem joined_of_normalize (ok : normalizeStorageRelativePath raw = .ok p) :
    p = joined (names raw) ∧ names raw ≠ [] := by
  obtain ⟨same, are⟩ := normalize_eq_ok.mp ok
  have kept : p = joined (names raw) := by
    rw [names_eq]
    rcases @pathCleanSlashLoop_eq ((trimmed raw).splitOn '/') [] (List.forall_mem_nil _) with up | kept
    · rw [same, pathCleanSlash, up] at are
      exact absurd rfl (are "..".toList (by decide)).up
    · exact same.trans kept
  refine ⟨kept, fun none => ?_⟩
  rw [kept, none] at are
  exact (are [] (by decide)).counts.1 rfl

theorem splitOn_joined (are : ∀ name ∈ parts, IsName '/' '.' name) (full : parts ≠ []) :
    (joined parts).splitOn '/' = parts :=
  List.splitOn_intercalate '/' (fun name mem => (are name mem).free) full

theorem normalize_joined (are : ∀ name ∈ parts, IsName '/' '.' name) (full : parts ≠ [])
    (same : trimmed (joined parts) = joined parts) :
    normalizeStorageRelativePath (joined parts) = .ok (joined parts) := by
  rw [normalize_eq_ok, same, pathCleanSlash, splitOn_joined are full, pathCleanSlashLoop_names are]
  exact ⟨rfl, are⟩

/-! ### Edges -/

theorem head?_joined (are : ∀ name ∈ parts, IsName '/' '.' name) :
    (joined parts).head? = parts.head?.bind List.head? := by
  cases parts with
  | nil => rfl
  | cons name parts =>
      have full := (are name List.mem_cons_self).counts.1
      unfold joined
      cases name with
      | nil => exact absurd rfl full
      | cons c name =>
          cases parts with
          | nil => rfl
          | cons next parts => rw [List.intercalate_cons_cons]; rfl

theorem getLast?_joined (are : ∀ name ∈ parts, IsName '/' '.' name) :
    (joined parts).getLast? = parts.getLast?.bind List.getLast? := by
  induction parts with
  | nil => rfl
  | cons name parts ih =>
      rw [List.forall_mem_cons] at are
      unfold joined at ih ⊢
      cases parts with
      | nil => rw [List.intercalate_singleton]; rfl
      | cons next parts =>
          have full : ['/'].intercalate (next :: parts) ≠ [] :=
            intercalate_ne_nil (fun name mem => (are.2 name mem).counts.1) (List.cons_ne_nil _ _)
          rw [List.intercalate_cons_cons, List.getLast?_append_of_ne_nil _ full, ih are.2,
            List.getLast?_cons_cons]

theorem mem_joined {name : Path} (mem : name ∈ parts) (h : c ∈ name) : c ∈ joined parts := by
  unfold joined
  induction parts with
  | nil => cases mem
  | cons first parts ih =>
      cases parts with
      | nil =>
          rw [List.mem_singleton.mp mem] at h
          simpa using h
      | cons next parts =>
          rw [List.intercalate_cons_cons]
          rcases List.mem_cons.mp mem with rfl | mem
          · exact List.mem_append_left _ (List.mem_append_left _ h)
          · exact List.mem_append_right _ (ih mem)

theorem of_mem_joined (h : c ∈ joined parts) : c = '/' ∨ ∃ name ∈ parts, c ∈ name := by
  unfold joined at h
  induction parts with
  | nil => cases h
  | cons first parts ih =>
      cases parts with
      | nil =>
          rw [List.intercalate_singleton] at h
          exact .inr ⟨first, List.mem_singleton_self _, h⟩
      | cons next parts =>
          rw [List.intercalate_cons_cons, List.mem_append, List.mem_append, List.mem_singleton] at h
          rcases h with (h | h) | h
          · exact .inr ⟨first, List.mem_cons_self, h⟩
          · exact .inl h
          · refine (ih h).imp_right ?_
            rintro ⟨name, mem, h⟩
            exact ⟨name, List.mem_cons_of_mem _ mem, h⟩

theorem not_backslash {name : Path} (mem : name ∈ names raw) : '\\' ∉ name := by
  intro h
  rw [names_eq, List.mem_reverse] at mem
  have part := (mem_of_mem_foldl mem).resolve_left List.not_mem_nil
  have whole := mem_joined part h
  rw [joined, List.intercalate_splitOn, trimmed, backslashToSlash, List.mem_map] at whole
  obtain ⟨c, -, is⟩ := whole
  split at is
  · cases is
  next other => exact other is

theorem backslashToSlash_joined (free : ∀ name ∈ parts, '\\' ∉ name) :
    backslashToSlash (joined parts) = joined parts := by
  refine (List.map_congr_left fun c h => if_neg ?_).trans (List.map_id _)
  rintro rfl
  rcases of_mem_joined h with slash | ⟨name, mem, h⟩
  · cases slash
  · exact free name mem h

/-- The answer for an accepted path is accepted and stays as it is exactly when its edges are
plain. -/
theorem normalize_again (ok : normalizeStorageRelativePath raw = .ok p) :
    normalizeStorageRelativePath p = .ok p ↔ PlainEdges raw := by
  obtain ⟨rfl, full⟩ := joined_of_normalize ok
  have are : ∀ name ∈ names raw, IsName '/' '.' name := isName_of_mem_names
  have edges : Trim.trim Api.isSpace (joined (names raw)) = joined (names raw) ↔ PlainEdges raw := by
    rw [Trim.trim_eq_self_iff]
    constructor
    · rintro ⟨front, back⟩
      rw [head?_joined are] at front
      rw [getLast?_joined are] at back
      exact ⟨fun name first c h => front c (Option.mem_bind_iff.mpr ⟨name, first, h⟩),
        fun name last c h => back c (Option.mem_bind_iff.mpr ⟨name, last, h⟩)⟩
    · rintro ⟨front, back⟩
      refine ⟨fun c h => ?_, fun c h => ?_⟩
      · rw [head?_joined are] at h
        obtain ⟨name, first, h⟩ := Option.mem_bind_iff.mp h
        exact front name first c h
      · rw [getLast?_joined are] at h
        obtain ⟨name, last, h⟩ := Option.mem_bind_iff.mp h
        exact back name last c h
  rw [← edges]
  constructor
  · intro again
    obtain ⟨same, -⟩ := joined_of_normalize again
    have le := @length_intercalate_foldl_le Char _ '/' '.' (trimmed (joined (names raw)))
    rw [← names_eq] at le
    have shorter : (trimmed (joined (names raw))).length =
        (Trim.trim Api.isSpace (joined (names raw))).length := List.length_map _
    have whole : (joined (names raw)).length ≤ (Trim.trim Api.isSpace (joined (names raw))).length := by
      rw [← shorter]
      exact (congrArg List.length same).trans_le le
    exact Trim.trim_infix.eq_of_length_le whole
  · intro same
    refine normalize_joined are full ?_
    rw [trimmed, same, backslashToSlash_joined fun name => not_backslash]

end Names

/-! ### Places -/

section Places

variable {host : Host} {raw p path : Path} {parts : List Path}

/-- The path is of something in the directory, at any depth. -/
def Below (root path : Path) : Prop :=
  ∃ above parts, root = render '/' '.' true above ∧ path = render '/' '.' true (above ++ parts) ∧
    Settled '/' '.' true (above ++ parts) ∧ parts ≠ [] ∧ ∀ name ∈ parts, IsName '/' '.' name

theorem apart : '.' ≠ '/' := by decide

theorem abs_render {names : List Path} (settled : Settled '/' '.' true names) :
    Abs host (render '/' '.' true names) = render '/' '.' true names := by
  unfold Abs
  rw [if_pos (isAbs_render apart settled), clean_render apart settled]

theorem locate_render {names : List Path} (settled : Settled '/' '.' true names) :
    locate host (render '/' '.' true names) = names := by
  unfold locate
  rw [abs_render settled, elements_render settled (.inl rfl)]

theorem exists_abs (host : Host) (path : Path) :
    ∃ names, Settled '/' '.' true names ∧ Abs host path = render '/' '.' true names := by
  unfold Abs
  split
  next rooted =>
    obtain ⟨names, settled, same⟩ := @exists_render Char _ '/' '.' path
    rw [rooted] at settled same
    exact ⟨names, settled, same⟩
  · have rooted : isAbs '/' (host.workingDirectory ++ '/' :: path) = true := by
      rw [isAbs_append (ne_nil_of_isAbs host.absolute)]
      exact host.absolute
    obtain ⟨names, settled, same⟩ := @exists_render Char _ '/' '.' (host.workingDirectory ++ '/' :: path)
    rw [rooted] at settled same
    refine ⟨names, settled, ?_⟩
    unfold Join SlashPath.join
    rw [if_neg (ne_nil_of_isAbs host.absolute)]
    exact same

/-- The names on the way to the storage directory. -/
def rootNames (host : Host) : List Path := locate host (storageRoot host)

theorem abs_root (host : Host) : Settled '/' '.' true (rootNames host) ∧
    Abs host (storageRoot host) = render '/' '.' true (rootNames host) := by
  obtain ⟨names, settled, same⟩ := exists_abs host (storageRoot host)
  have own : rootNames host = names := by
    rw [rootNames, locate, same, elements_render settled (.inl rfl)]
  rw [own]
  exact ⟨settled, same⟩

theorem resolve_eq (ok : resolveStoragePath host raw = .ok path) :
    (∃ p, normalizeStorageRelativePath raw = .ok p) ∧
      Settled '/' '.' true (rootNames host ++ names raw) ∧
      path = render '/' '.' true (rootNames host ++ names raw) := by
  obtain ⟨settled, root⟩ := abs_root host
  unfold resolveStoragePath at ok
  cases normalized : normalizeStorageRelativePath raw with
  | error e =>
      rw [normalized] at ok
      cases ok
  | ok p =>
      obtain ⟨rfl, full⟩ := joined_of_normalize normalized
      have below : Settled '/' '.' true (rootNames host ++ names raw) :=
        settled.append isName_of_mem_names
      have absPath : Abs host (Join (render '/' '.' true (rootNames host)) (joined (names raw))) =
          render '/' '.' true (rootNames host ++ names raw) := by
        rw [Join, joined, join_render apart settled isName_of_mem_names, abs_render below]
      refine ⟨⟨_, rfl⟩, below, ?_⟩
      rw [normalized, Fallible.ok_bind] at ok
      dsimp only at ok
      rw [root, absPath] at ok
      split at ok
      · cases ok
      · split at ok
        · cases ok
        · injection ok with same
          exact same.symm

theorem below_of_resolve (ok : resolveStoragePath host raw = .ok path) :
    Below (Abs host (storageRoot host)) path := by
  obtain ⟨⟨p, normalized⟩, settled, same⟩ := resolve_eq ok
  exact ⟨rootNames host, names raw, (abs_root host).2, same, settled,
    (joined_of_normalize normalized).2, isName_of_mem_names⟩

/-- A path leads where another one does exactly when the answers for both are the same. -/
theorem resolve_same {other : Path} (ok : resolveStoragePath host raw = .ok path) :
    resolveStoragePath host other = .ok path ↔
      normalizeStorageRelativePath other = normalizeStorageRelativePath raw := by
  constructor
  · intro ok'
    obtain ⟨⟨p, normalized⟩, settled, same⟩ := resolve_eq ok
    obtain ⟨⟨p', normalized'⟩, settled', same'⟩ := resolve_eq ok'
    have way := @locate_render host _ settled
    rw [← same, same', locate_render settled', List.append_cancel_left_eq] at way
    rw [normalized, normalized', (joined_of_normalize normalized).1,
      (joined_of_normalize normalized').1, way]
  · intro same
    rw [← ok]
    unfold resolveStoragePath
    rw [same]

end Places

/-! ### Uploads -/

section Uploads

variable {host : Host} {files files' : Files} {path : Path} {file : StoredFile}

theorem find?_removeEmptyParents {rounds : Nat} {dir : Path} {way : List Path}
    (gone : files.find? way = none) : (removeEmptyParents host rounds files dir).find? way = none := by
  induction rounds generalizing files dir with
  | zero => exact gone
  | succ rounds ih =>
      unfold removeEmptyParents
      split
      · split
        · exact gone
        next files' removed =>
          refine ih ?_
          rw [Tree.find?_remove removed]
          split
          · rfl
          · exact gone
      · exact gone

/-- A file can be served and deleted by a path. -/
structure Found (typeByExtension : Path → String) (host : Host) (files : Files)
    (currentUser : Except String (Option UserRow)) (stored : Path) (file : StoredFile)
    (path : Path) : Prop where
  served : ∃ served, serveStorageFile typeByExtension host files path = .ok served ∧
    served.file = stored ∧ served.bytes = file.bytes ∧ served.modTime = file.modTime
  deleted : ∃ files', deleteStorageFile host files currentUser path = .ok files' ∧
    files'.find? (locate host stored) = none

theorem found_iff {typeByExtension : Path → String} {currentUser : Except String (Option UserRow)}
    {admin : UserRow} {raw stored p : Path} (allowed : requireAdmin currentUser = .ok admin)
    (ok : resolveStoragePath host raw = .ok stored)
    (there : files.find? (locate host stored) = some (.file file))
    (reported : normalizeStorageRelativePath raw = .ok p) :
    Found typeByExtension host files currentUser stored file p ↔ PlainEdges raw := by
  have stat : files.stat (locate host stored) = .ok (.file file) := Tree.stat_eq_ok.mpr there
  rw [← normalize_again reported, ← reported, ← resolve_same ok]
  constructor
  · rintro ⟨⟨served, answer, same, -⟩, -⟩
    unfold serveStorageFile at answer
    cases resolved : resolveStoragePath host p with
    | error e =>
        rw [resolved] at answer
        cases answer
    | ok path =>
        rw [resolved] at answer
        dsimp only at answer
        split at answer
        · cases answer
        · cases answer
        · cases answer
        · injection answer with answer
          rw [← same, ← answer]
  · intro resolved
    refine ⟨?_, ?_⟩
    · unfold serveStorageFile
      rw [resolved]
      dsimp only
      rw [stat]
      exact ⟨_, rfl, rfl, rfl, rfl⟩
    · obtain ⟨files', removed⟩ := Tree.remove_file there
      unfold deleteStorageFile
      rw [allowed, Fallible.ok_bind, resolved]
      dsimp only
      rw [stat]
      dsimp only
      rw [removed]
      refine ⟨_, rfl, find?_removeEmptyParents ?_⟩
      rw [Tree.find?_remove removed, if_pos rfl]

theorem upload_spec {currentUser : Except String (Option UserRow)} {form : UploadForm}
    {file : UploadFile} {now : Int} {info : StorageFileInfo} (sent : form.file = some file)
    (ok : uploadStorageFile host files currentUser (some form) now = .ok (files', info)) :
    ∃ admin stored, requireAdmin currentUser = .ok admin ∧
      resolveStoragePath host (uploadPath form.path (base '/' '.' file.filename)) = .ok stored ∧
      normalizeStorageRelativePath (uploadPath form.path (base '/' '.' file.filename)) = .ok info.path ∧
      files'.find? (locate host stored) = some (.file ⟨file.content, now⟩) ∧
      info = { path := info.path, sizeBytes := file.content.length, modTime := now,
               url := storagePublicPath info.path } := by
  unfold uploadStorageFile at ok
  obtain ⟨admin, allowed, ok⟩ := Fallible.bind_ok.mp ok
  dsimp only at ok
  rw [sent] at ok
  dsimp only at ok
  split at ok
  · cases ok
  · split at ok
    · cases ok
    next stored resolved =>
      split at ok
      · cases ok
      next made _ =>
        split at ok
        · cases ok
        next written write =>
          split at ok
          · cases ok
          next path normalized =>
            injection ok with ok
            rw [Prod.mk.injEq] at ok
            obtain ⟨rfl, rfl⟩ := ok
            refine ⟨admin, stored, allowed, resolved, normalized, ?_, rfl⟩
            rw [Tree.find?_write write, if_pos rfl]

theorem mem_of_mapM {α β : Type} {f : α → Option β} {l : List α} {found : List β} {a : α}
    (all : l.mapM f = some found) (mem : a ∈ l) : ∃ b ∈ found, f a = some b := by
  induction l generalizing found with
  | nil => cases mem
  | cons first l ih =>
      rw [List.mapM_cons, Option.bind_eq_bind, Option.bind_eq_some_iff] at all
      obtain ⟨b, own, all⟩ := all
      rw [Option.bind_eq_bind, Option.bind_eq_some_iff] at all
      obtain ⟨rest, others, is⟩ := all
      injection is with is
      rw [← is]
      rcases List.mem_cons.mp mem with rfl | mem
      · exact ⟨b, List.mem_cons_self, own⟩
      · obtain ⟨b', mem', own'⟩ := ih others mem
        exact ⟨b', List.mem_cons_of_mem _ mem', own'⟩

theorem foldl_join {rooted : Bool} {above below : List Path}
    (settled : Settled '/' '.' rooted above) (are : ∀ name ∈ below, IsName '/' '.' name) :
    below.foldl Join (render '/' '.' rooted above) = render '/' '.' rooted (above ++ below) := by
  induction below generalizing above with
  | nil => rw [List.foldl_nil, List.append_nil]
  | cons name below ih =>
      rw [List.forall_mem_cons] at are
      have one : ∀ n ∈ [name], IsName '/' '.' n := List.forall_mem_singleton.mpr are.1
      have step := join_render apart settled one
      rw [List.intercalate_singleton] at step
      rw [List.foldl_cons, Join, step, ih (settled.append one) are.2, List.append_assoc]
      rfl

theorem root_clean (host : Host) : ∃ rooted above, Settled '/' '.' rooted above ∧
    storageRoot host = render '/' '.' rooted above := by
  have cleaned : ∃ path, storageRoot host = clean '/' '.' path := by
    unfold storageRoot Join SlashPath.join
    split
    · exact ⟨_, if_neg (by decide)⟩
    · exact ⟨_, rfl⟩
  obtain ⟨path, same⟩ := cleaned
  obtain ⟨above, settled, same'⟩ := @exists_render Char _ '/' '.' path
  exact ⟨_, above, settled, same.trans same'⟩

theorem fileInfo_eq {parts : List Path} (are : ∀ name ∈ parts, IsName '/' '.' name)
    (full : parts ≠ []) : fileInfo (storageRoot host) (parts, file) =
      some { path := joined parts, sizeBytes := file.bytes.length, modTime := file.modTime,
             url := storagePublicPath (joined parts) } := by
  obtain ⟨rooted, above, settled, same⟩ := root_clean host
  unfold fileInfo
  rw [same, foldl_join settled are, rel_render apart settled are full]
  rfl

theorem listed_of_find {currentUser : Except String (Option UserRow)} {infos : List StorageFileInfo}
    {parts : List Path} (are : ∀ name ∈ parts, IsName '/' '.' name) (full : parts ≠ [])
    (there : files.find? (rootNames host ++ parts) = some (.file file))
    (ok : listStorageFiles host files currentUser = .ok infos) :
    { path := joined parts, sizeBytes := file.bytes.length, modTime := file.modTime,
      url := storagePublicPath (joined parts) } ∈ infos := by
  unfold listStorageFiles at ok
  obtain ⟨admin, -, ok⟩ := Fallible.bind_ok.mp ok
  dsimp only at ok
  split at ok
  next missing =>
    have root : files.find? (rootNames host) ≠ none :=
      @Tree.find?_of_below _ _ _ files _ parts (by rw [there]; exact Option.some_ne_none _)
    obtain ⟨node, found⟩ := Option.ne_none_iff_exists'.mp root
    rw [show files.stat (locate host (storageRoot host)) = .ok node from
      Tree.stat_eq_ok.mpr found] at missing
    cases missing
  · cases ok
  · split at ok
    · cases ok
    next infos' all =>
      injection ok with ok
      rw [← ok]
      have mem : (parts, file) ∈ (files.files (locate host (storageRoot host))).insertionSort
          fun x y => walkedBefore x.1 y.1 := List.mem_insertionSort _ |>.mpr (Tree.mem_files.mpr there)
      obtain ⟨info, listed, own⟩ := mem_of_mapM all mem
      rw [fileInfo_eq are full] at own
      injection own with own
      rw [own]
      exact listed

end Uploads

/-! ### The storage directory -/

/-- What is accepted is below the storage directory.  Its answer is accepted again and stays, and
an upload is served and deleted by the path that it and the list answer with, exactly when there is
no white space in front of the first name of the path or after the last one. -/
theorem storage_paths (typeByExtension : Path → String) (host : Host) :
    (∀ raw path, resolveStoragePath host raw = .ok path →
      Below (Abs host (storageRoot host)) path) ∧
    (∀ raw p, normalizeStorageRelativePath raw = .ok p →
      (normalizeStorageRelativePath p = .ok p ↔ PlainEdges raw)) ∧
    ∀ files currentUser form file now files' info, form.file = some file →
      uploadStorageFile host files currentUser (some form) now = .ok (files', info) →
      ∃ stored, resolveStoragePath host (uploadPath form.path (base '/' '.' file.filename)) = .ok stored ∧
        (Found typeByExtension host files' currentUser stored ⟨file.content, now⟩ info.path ↔
          PlainEdges (uploadPath form.path (base '/' '.' file.filename))) ∧
        ∀ infos, listStorageFiles host files' currentUser = .ok infos → info ∈ infos := by
  refine ⟨fun raw path ok => below_of_resolve ok, fun raw p ok => normalize_again ok, ?_⟩
  intro files currentUser form file now files' info sent ok
  obtain ⟨admin, stored, allowed, resolved, normalized, there, data⟩ := upload_spec sent ok
  refine ⟨stored, resolved, found_iff allowed resolved there normalized, fun infos listed => ?_⟩
  obtain ⟨-, settled, same⟩ := resolve_eq resolved
  obtain ⟨names, full⟩ := joined_of_normalize normalized
  rw [same, locate_render settled] at there
  have entry := listed_of_find isName_of_mem_names full there listed
  rw [← names] at entry
  rw [data]
  exact entry


/-! ### Eva's uploads -/

def eva : UserRow := { UserRow.withDefaults 1 "eva" with role := .Admin }

def server : Host := ⟨"/srv".toList, by decide, "/data".toList⟩

def noFiles : Files where
  nodes := ∅
  root := AList.notMem_empty _
  parents := by
    intro path name there
    rw [nodeAt, if_neg (by simp), AList.lookup_empty] at there
    exact absurd rfl there

def menu : UploadFile := ⟨"menu.txt".toList, [77]⟩

def evasUpload (directory : String) : Except HTTPError (Files × StorageFileInfo) :=
  uploadStorageFile server noFiles (.ok (some eva)) (some ⟨directory.toList, some menu⟩) 0

def evasAnswer (directory : String) : Except HTTPError
    (Path × Except HTTPError (List UInt8) × Except HTTPError Unit) := do
  let (files, info) ← evasUpload directory
  return (info.path,
    (serveStorageFile (fun _ => "") server files info.path).map Served.bytes,
    (deleteStorageFile server files (.ok (some eva)) info.path).map fun _ => ())

theorem upload_of_answer {directory : String} {path : Path} {bytes : Except HTTPError (List UInt8)}
    {gone : Except HTTPError Unit} (answer : evasAnswer directory = .ok (path, bytes, gone)) :
    ∃ files info, evasUpload directory = .ok (files, info) ∧ info.path = path ∧
      (serveStorageFile (fun _ => "") server files info.path).map Served.bytes = bytes ∧
      (deleteStorageFile server files (.ok (some eva)) info.path).map (fun _ => ()) = gone := by
  obtain ⟨⟨files, info⟩, ok, same⟩ := Fallible.bind_ok.mp answer
  injection same with same
  rw [Prod.mk.injEq, Prod.mk.injEq] at same
  exact ⟨files, info, ok, same⟩

/-- The menu that is uploaded into the directory docs is served and deleted. -/
theorem storage_paths_docs :
    (∃ path, resolveStoragePath server "docs//menu.txt".toList = .ok path ∧
      Below (Abs server (storageRoot server)) path) ∧
    normalizeStorageRelativePath "docs/menu.txt".toList = .ok "docs/menu.txt".toList ∧
    ∃ files info stored, evasUpload "docs" = .ok (files, info) ∧
      Found (fun _ => "") server files (.ok (some eva)) stored ⟨menu.content, 0⟩ info.path := by
  have listed : names "docs/menu.txt".toList = ["docs".toList, "menu.txt".toList] := by
    decide +kernel
  have plain : PlainEdges "docs/menu.txt".toList := by
    constructor
    · intro name first c here
      rw [listed, List.head?_cons, Option.mem_some_iff] at first
      rw [← first, show "docs".toList.head? = some 'd' from rfl, Option.mem_some_iff] at here
      rw [← here]
      rfl
    · intro name last c here
      rw [listed, List.getLast?_cons_cons, List.getLast?_singleton, Option.mem_some_iff] at last
      rw [← last, show "menu.txt".toList.getLast? = some 't' from rfl, Option.mem_some_iff] at here
      rw [← here]
      rfl
  have resolved : resolveStoragePath server "docs//menu.txt".toList =
      .ok "/data/storage/docs/menu.txt".toList := by decide +kernel
  have answer : evasAnswer "docs" = .ok ("docs/menu.txt".toList, .ok [77], .ok ()) := by decide +kernel
  obtain ⟨files, info, ok, -, -⟩ := upload_of_answer answer
  obtain ⟨below, again, uploads⟩ := storage_paths (fun _ => "") server
  obtain ⟨stored, -, found, -⟩ := uploads noFiles _ _ menu 0 files info rfl ok
  exact ⟨⟨_, resolved, below _ _ resolved⟩,
    (again "docs/menu.txt".toList _ (by decide +kernel)).mpr plain,
    files, info, stored, ok, found.mpr plain⟩

/-- In a directory whose name begins with a blank, the answer is for another path. -/
theorem storage_path_trimmed :
    normalizeStorageRelativePath "./ docs/menu.txt".toList = .ok " docs/menu.txt".toList ∧
    normalizeStorageRelativePath " docs/menu.txt".toList = .ok "docs/menu.txt".toList ∧
    ∃ files info, evasUpload "./ docs" = .ok (files, info) ∧ info.path = " docs/menu.txt".toList ∧
      (serveStorageFile (fun _ => "") server files info.path).map Served.bytes =
        .error ⟨404, "file not found"⟩ ∧
      (deleteStorageFile server files (.ok (some eva)) info.path).map (fun _ => ()) =
        .error ⟨404, "file not found"⟩ :=
  ⟨by decide +kernel, by decide +kernel, upload_of_answer (by decide +kernel)⟩

end Memos.Fileserver
