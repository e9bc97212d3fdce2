import WsServer.Lib.LexicalPath
import WsServer.Model.Server

/-!
# The document root

`serveStatic` refuses a path that contains `..` and appends any other one to the
document root, with nothing in between.  Paths are compared as `LexicalPath`
resolves them, from the working directory of the process.

A path that begins with `/` stays below every non-empty document root
(`noEscape_of_head`).  The parser does not require that slash, and without it the
last name of the document root can grow into the name of a sibling:
`not_noEscape`.  `noEscape_iff` says exactly which document roots and paths are
safe.
-/

namespace WsServer

open CString

namespace Server

/-! ## The paths that are passed to the file system -/

/-- What a path names when no link is followed. -/
def resolve (cwd : List Bytes) (path : Bytes) : List Bytes := LexicalPath.resolve 47 46 cwd path

/-- Every path that `serveStatic` passes to the file system is the document root
or lies below it. -/
def NoEscape (cwd : List Bytes) (opts : Options) (files : FileSystem) (request : HttpRequest)
    (response : HttpResponse) : Prop :=
  ∀ access ∈ (serveStatic opts files request response).accesses,
    resolve cwd (cStr opts.docRoot) <+: resolve cwd access.path

/-- When the document root keeps a relative path below itself: the path is
refused, or the document root ends at a NUL and the path is never seen, or what
is seen of it stays below. -/
def Confines (cwd : List Bytes) (docRoot rel : Bytes) : Prop :=
  [46, 46] <:+: rel ∨ 0 ∈ docRoot ∨ LexicalPath.StaysBelow 47 46 cwd docRoot (cStr rel)

theorem accesses_of_isInfix (opts : Options) (files : FileSystem) {request : HttpRequest}
    (h : [46, 46] <:+: relativePath request) (response : HttpResponse) :
    (serveStatic opts files request response).accesses = [] := by
  unfold serveStatic
  rw [if_pos (PairSearch.isSome_findPair_iff.mpr h)]

/-- A path that is not refused is looked up at one place, `stat` first. -/
theorem accesses_of_not_isInfix (opts : Options) (files : FileSystem) {request : HttpRequest}
    (h : ¬ [46, 46] <:+: relativePath request) (response : HttpResponse) :
    ∃ opened, (serveStatic opts files request response).accesses =
        .stat (cStr (opts.docRoot ++ relativePath request)) :: opened ∧
      ∀ access ∈ opened, access.path = cStr (opts.docRoot ++ relativePath request) := by
  unfold serveStatic
  rw [if_neg fun hsome => h (PairSearch.isSome_findPair_iff.mp hsome)]
  dsimp only
  split
  · exact ⟨[], rfl, by simp⟩
  · split
    · exact ⟨_, rfl, by simp [FileAccess.path]⟩
    · exact ⟨_, rfl, by simp [FileAccess.path]⟩

theorem noEscape_iff_isPrefix (cwd : List Bytes) (opts : Options) (files : FileSystem)
    {request : HttpRequest} (h : ¬ [46, 46] <:+: relativePath request)
    (response : HttpResponse) :
    NoEscape cwd opts files request response ↔ resolve cwd (cStr opts.docRoot) <+:
      resolve cwd (cStr (opts.docRoot ++ relativePath request)) := by
  obtain ⟨opened, haccesses, hopened⟩ := accesses_of_not_isInfix opts files h response
  unfold NoEscape
  rw [haccesses, List.forall_mem_cons]
  refine ⟨fun hall => hall.1, fun hbelow => ⟨hbelow, fun access haccess => ?_⟩⟩
  rw [hopened access haccess]
  exact hbelow

/-- What is seen of a path without `..` has no segment that goes up. -/
theorem notMem_segments_cStr {rel : Bytes} (h : ¬ [46, 46] <:+: rel) :
    [46, 46] ∉ LexicalPath.segments 47 (cStr rel) := by
  intro hmem
  apply h
  exact (LexicalPath.isInfix_of_mem_segments hmem).trans (cStr_isPrefix rel).isInfix

/-! ## Which document roots confine which paths -/

theorem noEscape_of_isInfix (cwd : List Bytes) (opts : Options) (files : FileSystem)
    {request : HttpRequest} (h : [46, 46] <:+: relativePath request) (response : HttpResponse) :
    NoEscape cwd opts files request response := by
  unfold NoEscape
  rw [accesses_of_isInfix opts files h]
  exact List.forall_mem_nil _

theorem isPrefix_resolve_iff (cwd : List Bytes) (docRoot : Bytes) {rel : Bytes}
    (h : ¬ [46, 46] <:+: rel) :
    resolve cwd (cStr docRoot) <+: resolve cwd (cStr (docRoot ++ rel)) ↔
      Confines cwd docRoot rel := by
  by_cases hnul : 0 ∈ docRoot
  · -- the file system sees the document root and nothing of the path
    rw [cStr_append_of_mem hnul]
    exact iff_of_true List.prefix_rfl (.inr (.inl hnul))
  · have hroot : cStr docRoot = docRoot := cStr_of_forall_ne fun c hc heq => hnul (heq ▸ hc)
    rw [cStr_append_of_notMem hnul, hroot, resolve, resolve,
      LexicalPath.isPrefix_resolve_append_iff cwd (notMem_segments_cStr h)]
    refine ⟨fun hbelow => .inr (.inr hbelow), fun hconfines => ?_⟩
    rcases hconfines with hup | hmem | hbelow
    · exact absurd hup h
    · exact absurd hmem hnul
    · exact hbelow

/-- **No escape, exactly.**  `serveStatic` stays in the document root exactly when
the document root confines the path of the request. -/
theorem noEscape_iff (cwd : List Bytes) (opts : Options) (files : FileSystem)
    (request : HttpRequest) (response : HttpResponse) :
    NoEscape cwd opts files request response ↔
      Confines cwd opts.docRoot (relativePath request) := by
  by_cases hup : [46, 46] <:+: relativePath request
  · exact iff_of_true (noEscape_of_isInfix cwd opts files hup response) (.inl hup)
  · calc NoEscape cwd opts files request response
        ↔ resolve cwd (cStr opts.docRoot) <+:
            resolve cwd (cStr (opts.docRoot ++ relativePath request)) :=
          noEscape_iff_isPrefix cwd opts files hup response
      _ ↔ Confines cwd opts.docRoot (relativePath request) := isPrefix_resolve_iff cwd _ hup

/-- The default document root is `./www`.  A target without its slash names a
sibling of that directory. -/
theorem not_noEscape :
    ¬ ∀ (cwd : List Bytes) (opts : Options) (files : FileSystem) (buf : Buffer),
      (({} : HttpParser).parse buf).ret = .ok →
      NoEscape cwd opts files (({} : HttpParser).parse buf).parser.request {} := by
  intro h
  let buf := (Buffer.ofSize Buffer.kInitialSize).append
    (bytes "GET -private/key HTTP/1.1\r\n\r\n")
  have hescape : FileAccess.stat (bytes "./www-private/key") ∈
      (serveStatic {} ⟨fun _ => true, fun _ => none⟩ (({} : HttpParser).parse buf).parser.request
        {}).accesses := by
    decide +kernel
  have hbelow := h [] {} ⟨fun _ => true, fun _ => none⟩ buf (by decide +kernel) _ hescape
  exact absurd hbelow (by decide +kernel)

theorem relativePath_head {request : HttpRequest} (h : request.path.head? = some 47) :
    (relativePath request).head? = some 47 := by
  unfold relativePath
  split
  · rfl
  · exact h

/-- A path that begins with `/` does not escape from any document root that is
not empty. -/
theorem noEscape_of_head (cwd : List Bytes) {opts : Options} (hroot : opts.docRoot ≠ [])
    (files : FileSystem) {request : HttpRequest} (h : request.path.head? = some 47)
    (response : HttpResponse) : NoEscape cwd opts files request response := by
  by_cases hup : [46, 46] <:+: relativePath request
  · exact noEscape_of_isInfix cwd opts files hup response
  rw [noEscape_iff_isPrefix cwd opts files hup, isPrefix_resolve_iff cwd _ hup]
  refine .inr (.inr (LexicalPath.staysBelow_of_head hroot ?_ cwd))
  obtain ⟨rest, hrest⟩ := List.head?_eq_some_iff.mp (relativePath_head h)
  rw [hrest]
  rfl

/-! ## The whole handler -/

/-- The handler looks files up only through `serveStatic`. -/
theorem accesses_handleRequest (opts : Options) (files : FileSystem) (snapshot : Stats)
    (request : HttpRequest) (response : HttpResponse) :
    (handleRequest opts files snapshot request response).accesses = [] ∨
      (handleRequest opts files snapshot request response).accesses =
        (serveStatic opts files request response).accesses := by
  show (dispatch opts files snapshot request response).accesses = [] ∨
    (dispatch opts files snapshot request response).accesses = _
  unfold dispatch
  dsimp only
  split
  · exact .inl rfl
  split
  · split <;> exact .inl rfl
  split
  · exact .inl rfl
  split
  · exact .inr rfl
  · exact .inl rfl

/-- What the handler looks up for a path that begins with `/` lies below the
document root. -/
theorem isPrefix_of_mem_accesses_handleRequest (cwd : List Bytes) {opts : Options}
    (hroot : opts.docRoot ≠ []) (files : FileSystem) (snapshot : Stats) {request : HttpRequest}
    (h : request.path.head? = some 47) {response : HttpResponse} {access : FileAccess}
    (haccess : access ∈ (handleRequest opts files snapshot request response).accesses) :
    resolve cwd (cStr opts.docRoot) <+: resolve cwd access.path := by
  rcases accesses_handleRequest opts files snapshot request response with hnone | hstatic
  · rw [hnone] at haccess
    exact absurd haccess List.not_mem_nil
  · rw [hstatic] at haccess
    exact noEscape_of_head cwd hroot files h response access haccess

end Server

end WsServer
