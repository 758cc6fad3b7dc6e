/-
The sitemap.

It is for search engines, which are visitors: it lists the public memos of an instance
that lets visitors in.  It asks the store itself, with a query of its own; it does not go
through the API.
-/
import Memos.Fileserver.Attachment
import Memos.Store.MemoList

namespace Memos.Frontend

open Store Access Fileserver

/-- `strings.TrimRight` with a slash. -/
def trimRightSlash (url : String) : String :=
  String.ofList (url.toList.reverse.dropWhile fun r => r = '/').reverse

def requirePublicAccess (state : State) : Except HTTPError Unit :=
  if !state.allowsAnonymousAccess then .error ⟨404, "public instance discovery is unavailable"⟩
  else .ok ()

def normalizeInstanceURL (instanceURL : String) : Except HTTPError String :=
  let instanceURL := trimRightSlash instanceURL
  if instanceURL = "" then .error ⟨404, "instance URL is not configured"⟩ else .ok instanceURL

/-- The query of the sitemap. -/
def sitemapFind : FindMemo where
  rowStatus := some .Normal
  visibilityList := [.Public]
  access := some { userID := none, allowPublic := true, allowProtected := false }
  excludeComments := true

/-- The locations in the sitemap. -/
def getSitemapXML (db : Tables) (instanceURL : String) : Except HTTPError (List String) := do
  requirePublicAccess db.toState
  let instanceURL ← normalizeInstanceURL instanceURL
  return (ListMemos db sitemapFind).map fun memo => instanceURL ++ "/memos/" ++ memo.uid

end Memos.Frontend
