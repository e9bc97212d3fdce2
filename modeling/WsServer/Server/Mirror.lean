import WsServer.Server.Responses

/-!
# `HEAD` mirrors `GET`

The dispatcher does not tell `HEAD` from `GET` (`dispatch_head`).  What differs comes after it: the
length that `toString` adds to the response to a `GET`, or that `serveStatic` has stated, is
written into the header map of the response to a `HEAD` before the body is dropped.  In the map it
has another place than at the end of the head, so the header lines are the same up to their order.
-/

namespace WsServer

open CString

namespace HttpResponse

variable {response : HttpResponse}

/-- The fields that are sent are those of the map with the length in it. -/
theorem sentFields_perm (response : HttpResponse) :
    response.sentFields.Perm response.sentHeaders.entries := by
  unfold sentFields sentHeaders
  split
  · rename_i hnone
    rw [Option.isNone_iff_eq_none] at hnone
    have hnotMem : ∀ value, (lengthKey, value) ∉ response.headers.entries := by
      intro value hmem
      rw [← SortedMap.find?_eq_some_iff, hnone] at hmem
      cases hmem
    have hnodup := List.Nodup.of_map _ response.headers.keys_nodup
    rw [List.perm_ext_iff_of_nodup]
    · rintro ⟨key, value⟩
      rw [List.mem_append, List.mem_singleton, Prod.mk.injEq, ← SortedMap.find?_eq_some_iff,
        ← SortedMap.find?_eq_some_iff, SortedMap.find?_insert]
      by_cases hkey : key = lengthKey
      · rw [hkey, hnone, if_pos rfl]
        simp [eq_comm]
      · rw [if_neg hkey]
        simp [hkey]
    · rw [List.nodup_append]
      refine ⟨hnodup, List.nodup_singleton _, ?_⟩
      intro field hfield other hother
      obtain rfl := List.mem_singleton.mp hother
      rintro rfl
      exact hnotMem _ hfield
    · exact List.Nodup.of_map _ (SortedMap.keys_nodup _)
  · rw [List.append_nil]

/-- Without its body a response is sent with the same headers. -/
theorem Announced.sentHeaders_withoutBody (h : Announced false response) :
    (Server.withoutBody response).sentHeaders = response.sentHeaders := by
  have hstated : (Server.withoutBody response).headers =
      response.headers.insert lengthKey (natToString response.body.length) := rfl
  unfold sentHeaders
  rw [hstated, SortedMap.find?_insert_self, Option.isNone_some, if_neg Bool.false_ne_true]
  split
  · rfl
  · rename_i hsome
    obtain ⟨value, hfind⟩ := Option.ne_none_iff_exists'.mp (mt Option.isNone_iff_eq_none.mpr hsome)
    obtain ⟨n, rfl, hn⟩ := h.stated value hfind
    apply SortedMap.ext_find?
    intro key
    rw [SortedMap.find?_insert]
    split
    · rename_i hkey
      rw [hkey, hfind, hn rfl]
    · rfl

end HttpResponse

namespace Server

open HttpResponse (Announced)

/-- The dispatcher answers both methods alike. -/
theorem dispatch_head (opts : Options) (files : FileSystem) (snapshot : Stats)
    (request : HttpRequest) :
    dispatch opts files snapshot { request with method := bytes "HEAD" } {} =
      dispatch opts files snapshot { request with method := bytes "GET" } {} := by
  have hpost : bytes "HEAD" ≠ bytes "POST" ∧ bytes "GET" ≠ bytes "POST" := by decide
  have hput : bytes "HEAD" ≠ bytes "PUT" ∧ bytes "GET" ≠ bytes "PUT" := by decide
  unfold dispatch
  simp only [hpost, hput, decide_true, decide_false, Bool.or_true, Bool.true_or, Bool.or_self]
  rfl

/-- **`HEAD` mirrors `GET`.**  For one path, query, header map and body, one document root and one
snapshot, both responses have the same status line, and the same header lines up to their order;
one of them states the length of the body of the response to the `GET`, and the response to the
`HEAD` ends behind its head. -/
theorem head_mirrors_get (opts : Options) (files : FileSystem) (snapshot : Stats)
    (request : HttpRequest) :
    let get := handleRequest opts files snapshot { request with method := bytes "GET" } {}
    let head := handleRequest opts files snapshot { request with method := bytes "HEAD" } {}
    ∃ statusLine getLines headLines body,
      Client.readHead get.response.toString = some (statusLine :: getLines, body) ∧
      Client.readHead head.response.toString = some (statusLine :: headLines, []) ∧
      headLines.Perm getLines ∧
      getLines.filter Client.statesLength = [fieldLine (lengthKey, natToString body.length)] ∧
      headLines.filter Client.statesLength = [fieldLine (lengthKey, natToString body.length)] ∧
      head.accesses = get.accesses := by
  intro get head
  have hget : Announced false get.response :=
    announced_handleRequest opts files snapshot { request with method := bytes "GET" }
  have hhead : head.response = withoutBody get.response := by
    show withoutBody ((dispatch opts files snapshot _ {}).response.setHeader _ _) = _
    rw [dispatch_head]
    rfl
  have haccesses : head.accesses = get.accesses := by
    show (dispatch opts files snapshot _ {}).accesses = _
    rw [dispatch_head]
    rfl
  have hread := hget.withoutBody.readHead_toString
  have hperm : (withoutBody get.response).sentFields.Perm get.response.sentFields := by
    refine (HttpResponse.sentFields_perm _).trans ?_
    rw [hget.sentHeaders_withoutBody]
    exact (HttpResponse.sentFields_perm _).symm
  have hlines := hperm.map fieldLine
  obtain ⟨n, hfilter, hn⟩ := hget.filter_statesLength
  rw [hn rfl] at hfilter
  refine ⟨_, _, _, _, hget.readHead_toString, hhead ▸ hread, hlines, hfilter, ?_, haccesses⟩
  have hfiltered := hlines.filter Client.statesLength
  rw [hfilter] at hfiltered
  exact List.perm_singleton.mp hfiltered

end Server

end WsServer
