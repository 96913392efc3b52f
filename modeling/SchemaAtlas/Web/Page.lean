import SchemaAtlas.Export.Mode

/-!
# `SchemaAtlas.Web.Page`: the page

One page shows the tables of a project and its exports. It asks for both by itself; all it needs
to know beforehand are the names of the exports.
-/

set_option autoImplicit false

namespace SchemaAtlas.Web

/-- The page up to the choice of exports. -/
def pageTop : List String :=
  [
    "<!DOCTYPE html>",
    "<html lang=\"en\">",
    "<head>",
    "    <meta charset=\"UTF-8\">",
    "    <title>LaraFlow - Laravel Schema Viewer</title>",
    "    <style>",
    "        * \x7b margin: 0; padding: 0; box-sizing: border-box; \x7d",
    "        body \x7b font-family: -apple-system, 'Segoe UI', Roboto, sans-serif; color: #1D1D1F; padding: 32px 48px; \x7d",
    "        h1 \x7b font-size: 28px; font-weight: 600; margin-bottom: 24px; \x7d",
    "        .controls \x7b display: flex; gap: 12px; margin-bottom: 24px; \x7d",
    "        input, select, button \x7b font-size: 14px; padding: 8px 12px; border: 1px solid #D2D2D7; border-radius: 8px; \x7d",
    "        input \x7b flex: 1; \x7d",
    "        button \x7b background: #0071E3; color: #FFFFFF; border: none; cursor: pointer; \x7d",
    "        .grid \x7b display: grid; grid-template-columns: repeat(auto-fill, minmax(260px, 1fr)); gap: 16px; \x7d",
    "        .card \x7b border: 1px solid #E8E8ED; border-radius: 12px; padding: 16px; \x7d",
    "        .card h3 \x7b font-size: 15px; margin-bottom: 8px; \x7d",
    "        .col \x7b font-family: 'SF Mono', Menlo, monospace; font-size: 12px; line-height: 1.7; \x7d",
    "        .pk \x7b color: #BF5AF2; \x7d .fk \x7b color: #0071E3; \x7d",
    "        pre \x7b background: #F5F5F7; border-radius: 12px; padding: 16px; font-size: 12px; overflow: auto; margin-top: 24px; \x7d",
    "        .error \x7b color: #FF3B30; \x7d",
    "    </style>",
    "</head>",
    "<body>",
    "    <h1>LaraFlow</h1>",
    "    <div class=\"controls\">",
    "        <input id=\"path\" placeholder=\"/path/to/laravel/project\">",
    "        <button onclick=\"analyze()\">Analyze</button>",
    "        <select id=\"mode\">"
  ]

/-- The page from the choice of exports on. -/
def pageBottom : List String :=
  [
    "</select>",
    "        <button onclick=\"exportSchema()\">Export</button>",
    "    </div>",
    "    <div id=\"summary\"></div>",
    "    <div class=\"grid\" id=\"tables\"></div>",
    "    <pre id=\"output\" hidden></pre>",
    "    <script>",
    "        const q = () => encodeURIComponent(document.getElementById('path').value);",
    "",
    "        async function analyze() \x7b",
    "            const res = await fetch('/api/analyze?path=' + q());",
    "            const data = await res.json();",
    "            const summary = document.getElementById('summary');",
    "            const grid = document.getElementById('tables');",
    "            grid.innerHTML = '';",
    "            if (data.error) \x7b summary.innerHTML = '<p class=\"error\">' + data.error + '</p>'; return; \x7d",
    "            const s = data.stats;",
    "            summary.innerHTML = '<p>' + s.tables + ' tables, ' + s.relations + ' relations</p><br>';",
    "            for (const table of Object.values(data.schema.tables)) \x7b",
    "                const cols = table.columns.map(c =>",
    "                    '<div class=\"col ' + (c.is_primary_key ? 'pk' : c.is_foreign_key ? 'fk' : '') + '\">' +",
    "                    c.name + (c.nullable ? '?' : '') + ': ' + c.type + '</div>').join('');",
    "                const rels = data.edges.filter(e => e.source === table.name).map(e =>",
    "                    '<div class=\"col fk\">' + e.kind + ' &rarr; ' + e.target + '</div>').join('');",
    "                grid.innerHTML += '<div class=\"card\"><h3>' + table.name + (table.is_pivot ? ' (pivot)' : '') +",
    "                    '</h3>' + cols + rels + '</div>';",
    "            \x7d",
    "        \x7d",
    "",
    "        async function exportSchema() \x7b",
    "            const mode = document.getElementById('mode').value;",
    "            const res = await fetch('/api/export?path=' + q() + '&mode=' + mode);",
    "            const data = await res.json();",
    "            const out = document.getElementById('output');",
    "            out.hidden = false;",
    "            out.textContent = data.error ? data.error : data.content;",
    "        \x7d",
    "    </script>",
    "</body>",
    "</html>"
  ]

/-- The choice of one export. -/
def option (mode : Export.Mode) : String :=
  "<option value=\"" ++ mode.name ++ "\">" ++ mode.name ++ "</option>"

/-- The page. -/
def page : String :=
  "\n".intercalate pageTop ++ String.join (Export.Mode.all.map option)
    ++ "\n".intercalate pageBottom

end SchemaAtlas.Web
