import TagDoc.Config
import TagDoc.Page.Table
import TagDoc.Pass.Report

/-!
# The pass over tables

Every table of every configured database gets a page, and every configured
database an index page.  Databases without configuration are skipped.
-/

namespace TagDoc

variable {σ : Type}

def tableEntry (name : String) (table : TableSchema) (url : String) :
    IndexEntry :=
  ⟨name, table.group.getD defaultGroup, table.documentedComment.getD "", url⟩

def documentTable (space : Workspace σ) (settings : DbConfig)
    (database : String) (table : String × TableSchema) (order : Nat)
    (state : σ) : UnitRun σ :=
  let (name, schema) := table
  let unit := database ++ "." ++ name
  let page := Page.ofTable unit schema
  match space.save ⟨settings.path, name, page.value.markdown, order⟩ state with
  | (.error failure, state) =>
      ⟨none, page.findings ++ [.tableFailure unit failure], state⟩
  | (.ok url, state) => ⟨some (tableEntry name schema url), page.findings, state⟩

def databasePass (space : Workspace σ) (settings : DbConfig)
    (database : String) (tables : Assoc TableSchema) (state : σ) :
    PassRun σ BuildReport :=
  finishPass space "表名" settings.groups settings.path settings.indexName
    (.tableIndexFailure database)
    (runUnits (documentTable space settings database) tables firstUnitOrder
      state)

def registryPass (space : Workspace σ) (config : Config) :
    TableRegistry → σ → PassRun σ (Assoc BuildReport)
  | [], state => ⟨[], [], state⟩
  | (database, tables) :: rest, state =>
      match Assoc.get? database config.db with
      | none =>
          let others := registryPass space config rest state
          { others with
            findings := .unconfiguredDatabase database :: others.findings }
      | some settings =>
          let first := databasePass space settings database tables state
          let others := registryPass space config rest first.state
          { report := (database, first.report) :: others.report
            findings := first.findings ++ others.findings
            state := others.state }

end TagDoc
